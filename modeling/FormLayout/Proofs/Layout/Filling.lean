import FormLayout.Proofs.Layout.Laid
/-!
The tree that a layout is read into shows the form that the layout describes. Each step of reading
places what its occurrences say.
-/

namespace FormLayout.Layout
set_option autoImplicit true

namespace Step

open Reading

variable {around : Surroundings} {columns : Columns} {seen placed : List String}
  {ps : List Placement} {r : Reading}

/-- A node that is new, or a field, goes to the end of a spot. -/
theorem laid_put (hr : r.Laid around columns seen placed ps) (ht : 0 < Placement.tabs ps)
    {id : String} (content : Content) (hp : ∀ name, content = .palette name → id = paletteId name)
    (hk : content.kind ≠ .tab) (hrec : r.tree.Receives content.kind p spot)
    (hnew : content.kind ≠ .field → r.tree.kind? id ≠ some content.kind)
    (hfield : content.kind = .field → (around.config? r.columns id).isSome = true) :
    (put id content slots p).Ends r
      (Laid around columns ((content.shown id slots).palette?.toList ++ seen) placed
        (ps ++ [⟨spot, content.shown id slots⟩])) fun _ => True := by
  obtain ⟨target, k, hspot, hends, htarget, hcan⟩ := hrec
  have hput := put_eq id content slots p r
  cases hu : r.tree.create id content with
  | error e => exact .of_error (by rw [hput, hu]) trivial
  | ok u =>
    simp only [hu] at hput
    -- A node under the id has the kind that is asked for, and no kind may stand in itself.
    have hne : target ≠ id := by
      rintro rfl
      rw [FormTree.kind_eq_of_create hu htarget] at hcan
      exact Nat.lt_irrefl _ (NodeKind.height_lt_of_canContain hcan)
    cases hv : (u.update id fun n => { n with slots }).place id p with
    | error e => exact .of_error (by rw [hput, hv]) trivial
    | ok v =>
      rw [hv] at hput
      have hputs := hr.linked.puts_place (hr.tabs_ne_nil ht) hp hk hends hne hu hv
      have hlinked := (hr.linked.create hp hu).update id (Node.keepsLinks_slots slots)
      apply Ends.of_ok hput
      apply hr.puts_inside ((hlinked.place hv).congr fun x => ⟨fun h => h.1, False.elim⟩) hspot
        hputs
      · intro q hq
        have hqk : r.tree.kind? id = some q.kind := by
          rw [FormTree.kind?_eq_shown?, hq, Option.map_some]
        have hsame := FormTree.kind_eq_of_create hu hqk
        have hcontent : content.kind = .field := by
          by_contra hother
          exact hnew hother (hsame ▸ hqk)
        exact Shown.sameField_iff.2 ⟨id, hr.linked.fieldId?_of_shown? hq (hsame.trans hcontent),
          Content.fieldId?_shown.2 ⟨hcontent, rfl⟩⟩
      · intro x hx
        obtain ⟨hcontent, he⟩ := Content.fieldId?_shown.1 hx
        exact ⟨he, hfield hcontent⟩
      · intro name hname
        exact hp name (Content.palette?_shown hname)

theorem laid_lineBreak (hr : r.Laid around columns seen placed ps)
    (hrec : r.tree.Receives .lineBreak p spot) :
    (lineBreak p).Ends r (Laid around columns seen placed (ps ++ [⟨spot, .lineBreak⟩]))
      fun _ => True := by
  obtain ⟨target, k, hspot, hends, htarget, hcan⟩ := hrec
  have hbreak := lineBreak_eq p r
  cases hu : r.tree.lineBreak p with
  | mk u answer =>
    rw [hu] at hbreak
    cases answer with
    | error e => exact .of_error hbreak trivial
    | ok id =>
      obtain ⟨loose, hl, hle⟩ := hr.linked.joined.lineBreak p
      rw [hu] at hl
      obtain ⟨rfl, _⟩ := FormTree.lineBreak_ok_cases hu
      have hfresh := FormTree.kind?_eq_none_iff.2 r.tree.node?_nextLineBreak
      have hne : target ≠ lineBreakId r.tree.nextLineBreak := by
        rintro rfl
        cases hfresh.symm.trans htarget
      have hloose (x : String) : loose x ↔ False :=
        ⟨hle (fun _ => hends.has_target? htarget) x, False.elim⟩
      apply Ends.of_ok hbreak
      apply hr.puts_inside (hl.congr hloose) hspot (hr.linked.puts_lineBreak hends hne hu)
      · intro q hq
        rw [FormTree.shown?, r.tree.node?_nextLineBreak] at hq
        cases hq
      · intro x hx
        cases hx
      · intro name hname
        cases hname

/-- A step that, if it goes through, places what occurrences say, in any reading with a tab. -/
def Reads (around : Surroundings) (columns : Columns) (seen seen' : List String)
    (os : List Occurrence) (s : Step Unit) : Prop :=
  ∀ ⦃placed ps r⦄, r.Laid around columns seen placed ps → 0 < Placement.tabs ps →
    s.Ends r (Laid around columns seen' (placed ++ os.flatMap Occurrence.fieldsInside)
      ((kept (around.knows columns) placed os).foldl place ps)) fun _ => True

namespace Reads

variable {seen' seen'' : List String} {os os' : List Occurrence} {s : Step Unit}

theorem pure : Reads around columns seen seen [] (Pure.pure () : Step Unit) := by
  intro placed ps r hr _
  rw [List.flatMap_nil, List.append_nil]
  exact hr

theorem bind {f : Unit → Step Unit} (hs : Reads around columns seen seen' os s)
    (hf : ∀ a, Reads around columns seen' seen'' os' (f a)) :
    Reads around columns seen seen'' (os ++ os') (s >>= f) := by
  intro placed ps r hr ht
  rw [kept_append, List.flatMap_append, ← List.append_assoc, List.foldl_append]
  apply (hs hr ht).bind
  intro a r' hr'
  exact hf a hr' (tabs_foldl_place_pos ht _)

/-- A loop reads what its rounds read, in order. -/
theorem forM {f : α → Step Unit} {g : α → Occurrence} {l : List α}
    (hf : ∀ a ∈ l, Reads around columns seen seen [g a] (f a)) :
    Reads around columns seen seen (l.map g) (l.forM f) := by
  induction l with
  | nil => exact pure
  | cons a l ih =>
    have hrest := ih fun b hb => hf b (List.mem_cons_of_mem a hb)
    exact (hf a List.mem_cons_self).bind fun _ => hrest

end Reads

theorem counts_iff (hr : r.Laid around columns seen placed ps) {o : Occurrence} {id : String}
    (hk : o.item.kind = .field id) : o.counts (around.knows columns) placed = true ↔
      id ≠ "" ∧ (o.inside.isSome = true ∨ (around.config? r.columns id).isSome = true) := by
  rw [Occurrence.counts, hk]
  by_cases hid : id = ""
  · simp [hid]
  · rw [hr.known_iff hid]
    simp [hid, or_assoc]

theorem laid_placeField (hr : r.Laid around columns seen placed ps) (ht : 0 < Placement.tabs ps)
    {o : Occurrence} {id : String} (hk : o.item.kind = .field id)
    (hrec : r.tree.Receives .field p (o.spot (Placement.tabs ps)))
    (hknown : (around.config? r.columns id).isSome = true) :
    (placeField id config (o.item.drop 1) p).Ends r
      (Laid around columns seen placed (place ps o)) fun _ => True := by
  rw [placeField_eq, place_field hk]
  apply laid_put hr ht (.field config) (by simp) (by simp [Content.kind]) hrec
  · exact fun hne => absurd rfl hne
  · exact fun _ => hknown

theorem laid_placeLineBreak (hr : r.Laid around columns seen placed ps) {o : Occurrence}
    (hk : o.item.kind = .special .lineBreak)
    (hrec : r.tree.Receives .lineBreak p (o.spot (Placement.tabs ps))) :
    (lineBreak p).Ends r (Laid around columns seen (placed ++ o.fieldsInside)
      ((kept (around.knows columns) placed [o]).foldl place ps)) fun _ => True := by
  rw [kept_cons_of_special hk, kept, Occurrence.fieldsInside_of_special hk, List.append_nil,
    List.foldl_cons, List.foldl_nil, place_lineBreak hk]
  exact laid_lineBreak hr hrec

/-- A field that counts is placed, if only since a palette brings it in. -/
theorem laid_addField (hr : r.Laid around columns seen placed ps) (ht : 0 < Placement.tabs ps)
    {o : Occurrence} {id : String} (hk : o.item.kind = .field id)
    (hrec : r.tree.Receives .field p (o.spot (Placement.tabs ps))) :
    (addField around o.inside.isSome id (o.item.drop 1) p).Ends r
      (Laid around columns seen (placed ++ o.fieldsInside)
        ((kept (around.knows columns) placed [o]).foldl place ps)) fun _ => True := by
  have hcounts := counts_iff hr hk
  have hask := hr.ask id
  have hrecAsk : (r.ask around id).tree.Receives .field p (o.spot (Placement.tabs ps)) := by
    rw [tree_ask]
    exact hrec
  rw [kept_singleton, Ends, addField_eq]
  by_cases hne : id = ""
  · rw [if_pos hne, if_neg fun hc => (hcounts.1 hc).1 hne]
    exact hr.remember hk fun h => absurd hne h
  rw [if_neg hne]
  by_cases hknown : (around.config? r.columns id).isSome = true
  · have hknownAsk : (around.config? (r.ask around id).columns id).isSome = true := by
      rw [columns_ask]
      exact hknown
    obtain ⟨config, hc⟩ := Option.isSome_iff_exists.1 hknown
    rw [if_pos (hcounts.2 ⟨hne, .inr hknown⟩), hc]
    by_cases hin : (r.tree.field? id).isSome = true
    · rw [if_pos hin]
      exact laid_placeField (hr.remember hk fun _ _ => hknown) ht hk hrec hknown
    · rw [if_neg hin]
      exact laid_placeField (hask.remember hk fun _ _ => hknownAsk) ht hk hrecAsk hknownAsk
  · have hin : ¬ (r.tree.field? id).isSome = true :=
      fun hin => hknown (hr.field_known (FormTree.field?_isSome_iff.1 hin))
    rw [if_neg hin, Option.not_isSome_iff_eq_none.1 hknown]
    cases hinside : o.inside.isSome with
    | false =>
      rw [if_neg fun hc => (hcounts.1 hc).2.elim (by simp [hinside]) hknown]
      exact hask.remember hk fun _ h => absurd h (by simp [hinside])
    | true =>
      rw [if_pos (hcounts.2 ⟨hne, .inl hinside⟩)]
      exact laid_placeField (hask.synthesize hk hinside) ht hk hrecAsk
        ((around.isSome_config?_put _ id id).2 (.inr rfl))

theorem reads_addPaletteItem {name : String} (hname : name ∈ seen) (item : Item) :
    Reads around columns seen seen [⟨some name, item⟩] (addPaletteItem around name item) := by
  intro placed ps r hr ht
  rw [List.flatMap_singleton]
  cases hk : item.kind with
  | field id =>
    rw [addPaletteItem_field around name hk]
    exact laid_addField (o := ⟨some name, item⟩) hr ht hk (hr.receives_palette hname rfl)
  | special token =>
    cases token with
    | lineBreak =>
      rw [addPaletteItem_lineBreak around name hk]
      exact laid_placeLineBreak (o := ⟨some name, item⟩) hr hk (hr.receives_palette hname rfl)
    | tab =>
      rw [addPaletteItem, hk]
      trivial
    | palette =>
      rw [addPaletteItem, hk]
      trivial
    | unknown token =>
      rw [addPaletteItem, hk]
      trivial

theorem addPalette_eq_reference (around : Surroundings) {item : Item}
    (hk : item.kind = .special .palette) (r : Reading) : addPalette around item r =
      match item.reference? with
      | none => .ok () r
      | some name =>
        if around.palettes.has name = true ∧ (r.tree.palette? name).isSome = false then
          (put (paletteId name) (.palette name) (item.drop 1).dropLast r.position >>= fun _ =>
            (itemsOf around.palettes name).forM (addPaletteItem around name)) r
        else .ok () r := by
  match item, hk with
  | [], _ => rfl
  | [lead], hk =>
    have hnone : Item.reference? [lead] = none := if_pos hk
    rw [hnone]
    rfl
  | lead :: part :: rest, hk =>
    rw [addPalette_eq, Item.reference?_cons hk]
    dsimp only [List.drop_one, List.tail_cons]
    rw [itemsOf, Entries.has]
    generalize (part :: rest).getLastD "" = name
    cases around.palettes.get? name with
    | none => rw [if_neg (by simp)]
    | some s =>
      cases (r.tree.palette? name).isSome with
      | false => rfl
      | true => rfl

/-- The first reference to a stored palette puts it into the open tab. -/
theorem laid_declare (hr : r.Laid around columns seen placed ps) (ht : 0 < Placement.tabs ps)
    {item : Item} (href : item.reference? = some name) (hname : name ∉ seen) :
    (put (paletteId name) (.palette name) (item.drop 1).dropLast r.position).Ends r
      (Laid around columns (name :: seen) placed (place ps ⟨none, item⟩)) fun _ => True := by
  rw [place_palette (o := ⟨none, item⟩) href]
  apply laid_put hr ht (.palette name)
  · rintro _ ⟨⟩
    rfl
  · simp [Content.kind]
  · exact hr.receives_position ht (by simp [Content.kind])
  · exact fun _ hpalette => hname (hr.palette_iff.1 hpalette)
  · simp [Content.kind]

/-- A palette comes with its items, unless it is unknown or was seen before. -/
theorem reads_addPalette {item : Item} (hk : item.kind = .special .palette) :
    Reads around columns seen ((declared? around.palettes seen item).toList ++ seen)
      (occurrencesOf around.palettes seen item) (addPalette around item) := by
  intro placed ps r hr ht
  have hadd := addPalette_eq_reference around hk r
  have hskip (he : addPalette around item r = .ok () r) : (addPalette around item).Ends r
      (Laid around columns ([] ++ seen) (placed ++ [].flatMap Occurrence.fieldsInside)
        ((kept (around.knows columns) placed []).foldl place ps)) fun _ => True := by
    rw [List.nil_append, List.flatMap_nil, List.append_nil]
    exact .of_ok he hr
  rw [occurrencesOf, if_pos hk, declared?]
  cases href : item.reference? with
  | none =>
    rw [href] at hadd
    exact hskip hadd
  | some name =>
    rw [href] at hadd
    dsimp only at hadd
    rw [hr.isSome_palette?] at hadd
    rw [Option.filter_some]
    by_cases hnew : around.palettes.has name = true ∧ seen.contains name = false
    · rw [if_pos hnew] at hadd
      rw [if_pos (by simpa using hnew)]
      dsimp only
      rw [kept_cons_of_special (o := ⟨none, item⟩) hk, List.flatMap_cons,
        Occurrence.fieldsInside_of_special (o := ⟨none, item⟩) hk, List.nil_append,
        List.foldl_cons]
      have hput := laid_declare hr ht href (by simpa using hnew.2)
      have hitems : Reads around columns (name :: seen) (name :: seen)
          ((itemsOf around.palettes name).map (⟨some name, ·⟩))
          ((itemsOf around.palettes name).forM (addPaletteItem around name)) :=
        Reads.forM fun i _ => reads_addPaletteItem List.mem_cons_self i
      rw [Ends, hadd]
      apply hput.bind
      intro _ r' hr'
      exact hitems hr' (Nat.lt_of_lt_of_le ht (tabs_le_place ps ⟨none, item⟩))
    · rw [if_neg hnew] at hadd
      rw [if_neg (by simpa using hnew)]
      exact hskip hadd

/-- A tab is opened also if there is none yet. -/
theorem laid_openTab (hr : r.Laid around columns seen placed ps) (item : Item) :
    (openTab item).Ends r
      (Laid around columns seen placed (ps ++ [⟨.form, .tab (item.drop 1)⟩])) fun _ => True := by
  have hlen : r.tree.tabs.length = Placement.tabs ps := by
    rw [hr.numbered, List.length_map, List.length_range]
  have hnum : r.tree.tabs = (List.range r.tree.tabs.length).map toString := by
    rw [hlen]
    exact hr.numbered
  have hopen := openTab_eq item r
  dsimp only at hopen
  cases hu : r.tree.tab (toString r.tree.tabs.length) with
  | error e => exact .of_error (by rw [hopen, hu]) trivial
  | ok u =>
    rw [hu] at hopen
    have hid := hr.linked.node?_numbered hnum hu
    have hputs := hr.linked.puts_tab hid hu (item.drop 1)
    have hlinked := (hr.linked.create (by simp) hu).update (toString r.tree.tabs.length)
      (Node.keepsLinks_slots (item.drop 1))
    apply Ends.of_ok hopen
    apply hr.puts hlinked .form hputs
    · intro q hq
      rw [FormTree.shown?, hid] at hq
      cases hq
    · intro x hx
      cases hx
    · intro name hname
      cases hname
    · exact fun _ => congrArg toString hlen
    · exact .inr (.inl ⟨rfl, rfl⟩)

theorem reads_addItem (item : Item) :
    Reads around columns seen ((declared? around.palettes seen item).toList ++ seen)
      (occurrencesOf around.palettes seen item) (addItem around item) := by
  by_cases hpalette : item.kind = .special .palette
  · rw [addItem_palette around hpalette]
    exact reads_addPalette hpalette
  rw [occurrencesOf, if_neg hpalette, declared?, Item.reference?_of_kind hpalette]
  intro placed ps r hr ht
  rw [List.flatMap_singleton]
  have hrec {kind : NodeKind} (hk : kind ≠ .tab) := hr.receives_position ht hk
  cases hk : item.kind with
  | field id =>
    rw [Ends, addItem_field around hk]
    exact laid_addField (o := ⟨none, item⟩) hr ht hk (hrec (by simp))
  | special token =>
    cases token with
    | tab =>
      rw [addItem_tab around hk, kept_cons_of_special (o := ⟨none, item⟩) hk, kept,
        Occurrence.fieldsInside_of_special (o := ⟨none, item⟩) hk, List.append_nil,
        List.foldl_cons, List.foldl_nil, place_tab (o := ⟨none, item⟩) hk]
      exact laid_openTab hr item
    | palette => exact absurd hk hpalette
    | lineBreak =>
      rw [Ends, addItem_lineBreak around hk]
      exact laid_placeLineBreak (o := ⟨none, item⟩) hr hk (hrec (by simp))
    | unknown token =>
      rw [addItem, hk]
      trivial

theorem reads_ensureTab : Reads around columns seen seen [] ensureTab := by
  intro placed ps r hr ht
  rw [List.flatMap_nil, List.append_nil, Ends, ensureTab_eq,
    FormTree.ensureTab_of_ne_nil (hr.tabs_ne_nil ht)]
  exact hr

/-- The items place what they say, one after another. -/
theorem reads_takeIn (around : Surroundings) (columns : Columns) (items : List Item)
    (seen : List String) : ∃ seen',
    Reads around columns seen seen' (occurrences around.palettes seen items)
      (takeIn around items) := by
  induction items generalizing seen with
  | nil => exact ⟨seen, Reads.pure.bind fun _ => reads_ensureTab⟩
  | cons item rest ih =>
    obtain ⟨seen', hrest⟩ := ih ((declared? around.palettes seen item).toList ++ seen)
    rw [takeIn_cons]
    exact ⟨seen', (reads_addItem item).bind fun _ => hrest⟩

theorem laid_takeIn (hr : r.Laid around columns [] [] ps) (ht : 0 < Placement.tabs ps)
    (items : List Item) : (takeIn around items).Ends r (fun r' => ∃ seen placed,
      r'.Laid around columns seen placed ((kept (around.knows columns) []
        (occurrences around.palettes [] items)).foldl place ps)) fun _ => True := by
  obtain ⟨seen, hreads⟩ := reads_takeIn around columns items []
  apply (hreads hr ht).imp _ fun _ h => h
  intro _ h
  exact ⟨seen, _, h⟩

/-- Nothing is placed before the first step. -/
theorem laid_reset (around : Surroundings) (hc : r.columns = columns) (ht : r.tab = none) :
    { r with tree := r.tree.reset }.Laid around columns [] [] [] where
  linked := FormTree.Linked.reset _
  numbered := rfl
  shown spot := by cases spot <;> rfl
  opened := .inl ht
  palette_iff := ⟨(nomatch ·), (nomatch ·)⟩
  known_iff _ := by
    rw [← hc, around.knows_iff]
    simp
  field_known := (nomatch ·)

theorem laid_ensureTab (hr : r.Laid around columns [] [] []) (ht : r.tab = none)
    (hnodes : r.tree.nodes = []) : ensureTab.Ends r
      (Laid around columns [] [] [⟨.form, .tab [r.tree.defaultTabLabel]⟩]) fun _ => True := by
  have htabs : r.tree.tabs = [] := hr.numbered
  have hid : r.tree.ensureTab.2 = toString 0 := by
    rw [FormTree.ensureTab_of_nil htabs, FormTree.nextTabId, FormTree.size, hnodes, htabs]
    rfl
  apply Ends.of_ok (ensureTab_eq r)
  apply hr.puts hr.linked.ensureTab .form (hr.linked.puts_ensureTab htabs)
  · intro q hq
    rw [FormTree.shown?, FormTree.node?, hnodes] at hq
    cases hq
  · intro x hx
    cases hx
  · intro name hname
    cases hname
  · exact fun _ => hid
  · exact .inl ht

/-- The first tab is that of the first item, or one of its own. -/
theorem laid_fill (hc : r.columns = columns) (ht : r.tab = none) (items : List Item) :
    (fill around items).Ends r (fun r' => ∃ seen placed, r'.Laid around columns seen placed
      (placements r.tree.defaultTabLabel around columns items)) fun _ => True := by
  have hreset := laid_reset around hc ht
  rw [Ends, fill_eq, placements]
  by_cases hfirst : startsWithTab items = true
  · rw [if_pos hfirst, if_pos hfirst]
    cases items with
    | nil => cases hfirst
    | cons item rest =>
      have hk : item.kind = .special .tab := of_decide_eq_true hfirst
      rw [takeIn_cons, addItem_tab around hk, occurrences_cons (by simp [hk]),
        kept_cons_of_special (o := ⟨none, item⟩) hk, List.foldl_cons, place_tab (o := ⟨none, item⟩) hk]
      apply (laid_openTab hreset item).bind
      intro _ r' hr'
      exact laid_takeIn hr' Nat.zero_lt_one rest
  · rw [if_neg hfirst, if_neg hfirst]
    apply (laid_ensureTab hreset ht rfl).bind
    intro _ r' hr'
    exact laid_takeIn hr' Nat.zero_lt_one items

end Step

/-- A layout that is read without a failure gives the form that it describes, whatever the tree held
before, and the tree holds nothing else. -/
theorem form_read (layout : Layout) (tree : FormTree) (columns : Columns)
    (parent : Option (String → Option Fields))
    (h : (layout.read tree columns parent).failure = none) :
    let u := (layout.read tree columns parent).tree
    u.form = form tree.defaultTabLabel ⟨layout.palettes, parent⟩ columns
        (ShowItem.parse layout.showItem) ∧
      u.form.flatten = u.walk.map Node.shown ∧ u.Consistent := by
  have hfill : (fill ⟨layout.palettes, parent⟩ (ShowItem.parse layout.showItem)).Ends
      ⟨tree, columns, none, []⟩ _ _ := Step.laid_fill rfl rfl _
  rw [read] at h ⊢
  split at h
  · next r hr =>
    obtain ⟨seen, placed, hlaid⟩ := hfill.ok hr
    exact ⟨hlaid.form_eq, hlaid.linked.flatten_form, hlaid.linked.toConsistent⟩
  · cases h

/-- Fields leave the default tab and the palette for the second tab; an unknown field, an empty one
and the second reference are dropped. -/
theorem form_read_of_moved :
    let tree := ((FormTree.empty "general").run (.field "old" [] [])).1
    let showItem :=
      "a;A,--palette--;P;p,--div--;Two,b,x,u,--linebreak--,--palette--;;p,;lost,a"
    let filled := Layout.read ⟨showItem, [("p", "b,--linebreak--,y;Y,x")]⟩ tree
      [("a", []), ("b", [])] none
    filled.failure = none ∧ filled.tree.form =
      [(.tab ["general"], [(.palette "p" ["P"], [.lineBreak, .field "y" ["Y"]])]),
        (.tab ["Two"], [(.field "b" [], []), (.field "x" [], []), (.lineBreak, []),
          (.field "a" [], [])])] := by
  intro tree showItem filled
  have hread : filled.failure = none := by decide +kernel
  refine ⟨hread, (form_read _ _ _ _ hread).1.trans ?_⟩
  decide +kernel

end FormLayout.Layout
