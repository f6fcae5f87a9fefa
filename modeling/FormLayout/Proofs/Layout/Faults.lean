import FormLayout.Proofs.Form.Position
import FormLayout.Proofs.Layout.Orderly
import FormLayout.Proofs.Palette.Reference
/-!
How the reading of a layout fails: only at an item that the grammar does not allow where it stands,
and at the first one.
-/

namespace FormLayout
set_option autoImplicit true

namespace Item

/-- What is wrong with an item wherever it stands. -/
def fault? (item : Item) : Option Error :=
  match item.kind with
  | .special (.unknown token) => some (.unknownSpecialItem token item.text)
  | _ => none

/-- What is wrong with an item inside a palette, where tabs and palettes have no place either. -/
def faultInside? (palette : String) (item : Item) : Option Error :=
  match item.kind with
  | .special .tab | .special .palette => some (.misplacedSpecialItem item.text palette)
  | _ => item.fault?

theorem fault?_cases {item : Item} (h : item.fault? = some e) :
    ∃ token item, e = .unknownSpecialItem token item := by
  rw [fault?] at h
  split at h
  · exact ⟨_, _, (Option.some.inj h).symm⟩
  · cases h

theorem mem_fieldIds {item : Item} {id : String} : id ∈ item.fieldIds ↔ item.kind = .field id := by
  rw [fieldIds]
  cases item.kind with
  | field x => simp [eq_comm]
  | special token => simp

end Item

namespace Layout

/-- The items of a stored palette. -/
def itemsOf (palettes : Palettes) (name : String) : List Item :=
  ((palettes.get? name).map ShowItem.parse).getD []

/-- What is wrong with the items of a stored palette. -/
def faultsInside (palettes : Palettes) (name : String) : List Error :=
  (itemsOf palettes name).filterMap (Item.faultInside? name)

/-- What is wrong with an item in a tab or with the palette that it refers to. -/
def faultsOf (palettes : Palettes) (item : Item) : List Error :=
  match item.reference? with
  | some name => faultsInside palettes name
  | none => item.fault?.toList

/-- All that is wrong with a layout, in reading order. -/
def faults (layout : Layout) : List Error :=
  (ShowItem.parse layout.showItem).flatMap (faultsOf layout.palettes)

/-- The fields that an item brings in: those of a palette, or a field that is known. -/
def Surroundings.fieldsOf (around : Surroundings) (columns : Columns) (item : Item) : List String :=
  match item.reference? with
  | some name => (itemsOf around.palettes name).flatMap Item.fieldIds
  | none => item.fieldIds.filter fun id => (around.config? columns id).isSome

theorem Surroundings.ofPart?_of_mem_fieldsOf {around : Surroundings} {columns : Columns}
    {item : Item} {id : String} (h : id ∈ around.fieldsOf columns item) :
    SpecialToken.ofPart? id = none := by
  have hfield {i : Item} (hi : id ∈ i.fieldIds) : SpecialToken.ofPart? id = none := by
    obtain ⟨hpart, rfl⟩ := Item.kind_eq_field_iff.1 (Item.mem_fieldIds.1 hi)
    exact hpart
  rw [fieldsOf] at h
  split at h
  · obtain ⟨i, _, hi⟩ := List.mem_flatMap.1 h
    exact hfield hi
  · exact hfield (List.mem_of_mem_filter h)

/-- The number of tabs that reading gives. -/
def tabsOf (items : List Item) : Nat :=
  tabCount items + if startsWithTab items then 0 else 1

/-- No field that the layout brings in has a colon in its id, or is named like one of the tabs. -/
def KeepsIdsApart (layout : Layout) (columns : Columns) (parent : Option (String → Option Fields)) :
    Prop :=
  let items := ShowItem.parse layout.showItem
  ∀ item ∈ items, ∀ id ∈ Surroundings.fieldsOf ⟨layout.palettes, parent⟩ columns item,
    ':' ∉ id.toList ∧ ∀ k < tabsOf items, id ≠ toString k

instance (layout : Layout) (columns : Columns) (parent : Option (String → Option Fields)) :
    Decidable (layout.KeepsIdsApart columns parent) :=
  inferInstanceAs (Decidable (∀ item ∈ _, ∀ id ∈ _, _ ∧ ∀ k < _, _))

/-- The places that reading puts nodes at. -/
def positions (layout : Layout) : List Position :=
  let items := ShowItem.parse layout.showItem
  let targets := (List.range (tabsOf items)).map toString ++
    (items.filterMap Item.reference?).map paletteId
  .default :: targets.map .bottom

namespace Reading

/-- A settled reading whose palettes have no faults. -/
def Flawless (around : Surroundings) (fields : String → Prop) (tabs : Nat) (columns : Columns)
    (room : Nat) (r : Reading) : Prop :=
  ∃ palettes, r.Settled around fields tabs columns palettes room ∧
    ∀ name, palettes name → faultsInside around.palettes name = []

end Reading

namespace Step

/-- A step goes through if nothing is wrong, and else fails with the first thing that is. -/
def Meets (s : Step α) (r : Reading) (faults : List Error) (Q : Reading → Prop) : Prop :=
  match s r with
  | .ok _ r' => faults = [] ∧ Q r'
  | .error e _ => faults.head? = some e

namespace Meets

variable {s : Step α} {r : Reading} {faults : List Error} {Q Q' : Reading → Prop}

theorem of_ok (hs : s r = .ok a r') (hQ : Q r') : s.Meets r [] Q := by
  rw [Meets, hs]
  exact ⟨rfl, hQ⟩

theorem of_throw (e : Error) : (throw e : Step α).Meets r [e] Q := rfl

theorem congr {s' : Step α} (he : s r = s' r') (h : s'.Meets r' faults Q) :
    s.Meets r faults Q := by
  rwa [Meets, he]

theorem imp (h : s.Meets r faults Q) (hQ : faults = [] → ∀ r, Q r → Q' r) :
    s.Meets r faults Q' := by
  rw [Meets] at h ⊢
  cases hs : s r with
  | ok a r' =>
    rw [hs] at h
    exact ⟨h.1, hQ h.1 r' h.2⟩
  | error e r' =>
    rw [hs] at h
    exact h

theorem exists_ok (h : s.Meets r [] Q) : ∃ a r', s r = .ok a r' ∧ Q r' := by
  rw [Meets] at h
  cases hs : s r with
  | ok a r' =>
    rw [hs] at h
    exact ⟨a, r', rfl, h.2⟩
  | error e r' =>
    rw [hs] at h
    cases h

theorem bind {f : α → Step β} (h : s.Meets r faults Q)
    (hf : ∀ a r, Q r → (f a).Meets r faults' Q') : (s >>= f).Meets r (faults ++ faults') Q' := by
  rw [Meets, bind_eq]
  rw [Meets] at h
  cases hs : s r with
  | ok a r' =>
    rw [hs] at h
    have hb := hf a r' h.2
    rw [h.1, List.nil_append]
    exact hb
  | error e r' =>
    rw [hs] at h
    exact (List.head?_append_of_ne_nil _ (fun hn => by rw [hn] at h; cases h)).trans h

/-- A loop whose steps keep a property fails with the first thing that is wrong with any entry. -/
theorem forM {f : β → Step Unit} {l : List β} {g : β → Option Error}
    (hf : ∀ b ∈ l, ∀ r, Q r → (f b).Meets r (g b).toList Q) (hr : Q r) :
    (l.forM f).Meets r (l.filterMap g) Q := by
  induction l generalizing r with
  | nil => exact of_ok (a := ()) rfl hr
  | cons b l ih =>
    have hl : (b :: l).filterMap g = (g b).toList ++ l.filterMap g := by
      rw [List.filterMap_cons]
      cases g b <;> rfl
    rw [hl]
    apply (hf b List.mem_cons_self r hr).bind
    intro _ r' hr'
    exact ih (fun c hc => hf c (List.mem_cons_of_mem b hc)) hr'

end Meets

open Reading

variable {around : Surroundings} {fields : String → Prop} {tabs : Nat} {columns : Columns}
  {palettes : String → Prop} {room : Nat} {r : Reading}

section

variable (hf : ∀ id, fields id → OwnId tabs id)

include hf

/-- A node other than a tab is created or found and goes to its place. -/
theorem meets_put (hr : r.Settled around fields tabs columns palettes room) {id : String}
    {content : Content} (hk : content.kind ≠ .tab)
    (hp : ∀ name, content = .palette name → id = paletteId name)
    (hid : Named fields tabs id content.kind) (slots : Slots)
    (hpos : r.tree.Takes content.kind p)
    (hpal : ∀ name, palettes' name ↔ palettes name ∨ content.kind = .palette ∧ paletteId name = id) :
    (put id content slots p).Meets r [] (Settled around fields tabs columns palettes' room) := by
  have hfree : ∀ k, r.tree.kind? id = some k → k = content.kind :=
    fun k hn => (hr.named hn).unique hf hid
  obtain ⟨u, hu⟩ := FormTree.exists_create hfree
  have hkinds := FormTree.kind?_create hr.tabs_ne_nil hu
  have htabs := hr.linked.tabs_create hp hk hr.tabs_ne_nil hu
  have hlinked := (hr.linked.create hp hu).update id (Node.keepsLinks_slots slots)
  have hput := put_eq id content slots p r
  simp only [hu] at hput
  rw [← FormTree.tabs_update u id fun n => { n with slots }] at htabs
  simp only [← FormTree.kind?_update u id (Node.keepsLinks_slots slots).kind] at hkinds
  generalize (u.update id fun n => { n with slots }) = w at *
  have hself : w.kind? id = some content.kind := by rw [hkinds, if_pos rfl]
  have hplace : ∃ v, w.place id p = .ok v := by
    apply FormTree.Takes.exists_place _ hself
    apply hpos.mono
    intro x k hx
    rw [hkinds]
    split
    · next he =>
      rw [hfree k (he ▸ hx)]
    · exact hx
  obtain ⟨v, hv⟩ := hplace
  have hne : w.tabs ≠ [] := by
    rw [htabs]
    exact hr.tabs_ne_nil
  have hkind (n : Node) (hn : w.node? id = some n) : n.kind ≠ .tab := by
    rw [FormTree.kind?_of_node? hn] at hself
    rw [Option.some.inj hself]
    exact hk
  have hsame := hlinked.kind?_place hv hne
  rw [hv] at hput
  apply Meets.of_ok hput
  apply hr.grow hf ((hlinked.place hv).congr fun x => ⟨fun h => h.1, False.elim⟩) _ hid _ hpal
  · rw [hlinked.tabs_place hv hkind hne, htabs]
  · intro x
    rw [hsame, hkinds]

theorem meets_lineBreak (hr : r.Settled around fields tabs columns palettes room)
    (hpos : r.tree.Takes .lineBreak p) :
    (lineBreak p).Meets r [] (Settled around fields tabs columns palettes room) := by
  obtain ⟨u, hu⟩ := hpos.exists_lineBreak
  have hbreak := lineBreak_eq p r
  rw [hu] at hbreak
  have htarget (id : String) (hid : p.target? = some id) : r.tree.has id = true := by
    cases hpos with
    | default => cases hid
    | bottom hk _ =>
      cases hid
      exact FormTree.has_iff_kind?.2 ⟨_, hk⟩
  obtain ⟨loose, hl, hle⟩ := hr.linked.joined.lineBreak p
  have htabs : (r.tree.lineBreak p).1.tabs = r.tree.tabs :=
    hr.linked.tabs_lineBreak hr.tabs_ne_nil
  rw [hu] at hl htabs
  apply Meets.of_ok hbreak
  apply hr.grow hf (hl.congr fun x => ⟨hle htarget x, False.elim⟩) htabs (.lineBreak _)
    (hr.linked.kind?_lineBreak hr.tabs_ne_nil hu)
  simp

/-- A field goes to its place if it is known, and an unknown one is skipped or brought in. -/
theorem meets_addField (hr : r.Settled around fields tabs columns palettes room)
    (inPalette : Bool) {id : String} (slots : Slots) (hpos : r.tree.Takes .field p)
    (hid : inPalette = true ∨ (around.config? columns id).isSome = true → fields id) :
    (addField around inPalette id slots p).Meets r []
      (Settled around fields tabs columns palettes room) := by
  have hput {config} {r : Reading} (hr : r.Settled around fields tabs columns palettes room)
      (hpos : r.tree.Takes .field p) (hfield : fields id) :
      (placeField id config slots p).Meets r []
        (Settled around fields tabs columns palettes room) := by
    have hk : (Content.field config).kind ≠ .tab := by simp [Content.kind]
    rw [placeField_eq]
    exact meets_put hf hr hk (by simp) (.field hfield) slots hpos (by simp [Content.kind])
  rw [Meets, addField_eq]
  by_cases hne : id = ""
  · rw [if_pos hne]
    exact ⟨rfl, hr⟩
  rw [if_neg hne]
  by_cases hin : (r.tree.field? id).isSome = true
  · rw [if_pos hin]
    apply hput hr hpos
    cases hr.named (FormTree.field?_isSome_iff.1 hin) with
    | field hfield => exact hfield
  · rw [if_neg hin]
    have hpos' : (r.ask around id).tree.Takes .field p := by
      rw [tree_ask]
      exact hpos
    cases hc : around.config? r.columns id with
    | some config =>
      apply hput (hr.ask id) hpos'
      rcases hr.known (Option.isSome_of_eq_some hc) with hk | hfield
      · exact hid (.inr hk)
      · exact hfield
    | none =>
      cases inPalette with
      | false => exact ⟨rfl, hr.ask id⟩
      | true =>
        have hfield := hid (.inl rfl)
        exact hput ((hr.ask id).synthesize hfield) hpos' hfield

theorem meets_addPaletteItem (hr : r.Settled around fields tabs columns palettes room)
    {name : String} (hname : palettes name) {item : Item} (hids : ∀ id ∈ item.fieldIds, fields id) :
    (addPaletteItem around name item).Meets r (item.faultInside? name).toList
      (Settled around fields tabs columns palettes room) := by
  have hkind : r.tree.kind? (paletteId name) = some .palette := hr.palette_iff.2 hname
  rw [Item.faultInside?, Item.fault?]
  cases hk : item.kind with
  | field id =>
    rw [addPaletteItem_field around name hk]
    apply meets_addField hf hr true _ (.bottom hkind rfl)
    intro _
    exact hids id (Item.mem_fieldIds.2 hk)
  | special token =>
    cases token with
    | lineBreak =>
      rw [addPaletteItem_lineBreak around name hk]
      exact meets_lineBreak hf hr (.bottom hkind rfl)
    | tab =>
      rw [addPaletteItem, hk]
      exact .of_throw _
    | palette =>
      rw [addPaletteItem, hk]
      exact .of_throw _
    | unknown token =>
      rw [addPaletteItem, hk]
      exact .of_throw _

/-- A palette is taken in with its items, unless it is unknown or there already. Then its items were
taken in before, so nothing is wrong with them. -/
theorem meets_addPalette (hr : r.Flawless around fields tabs columns room) {item : Item}
    (hk : item.kind = .special .palette) (hids : ∀ id ∈ around.fieldsOf columns item, fields id) :
    (addPalette around item).Meets r (faultsOf around.palettes item)
      (Flawless around fields tabs columns room) := by
  have hnone (href : item.reference? = none) : faultsOf around.palettes item = [] := by
    rw [faultsOf, href, Item.fault?, hk]
    rfl
  match item, hk with
  | [], hk =>
    rw [hnone rfl]
    exact .of_ok (a := ()) rfl hr
  | [lead], hk =>
    rw [hnone (if_pos hk)]
    exact .of_ok (a := ()) rfl hr
  | lead :: part :: rest, hk =>
    have href := Item.reference?_cons hk
    have hadd := addPalette_eq around lead part rest r
    rw [Surroundings.fieldsOf, href] at hids
    rw [faultsOf, href]
    dsimp only at hids hadd ⊢
    generalize (part :: rest).getLastD "" = name at *
    obtain ⟨palettes, hr, hclean⟩ := hr
    cases hl : around.palettes.get? name with
    | none =>
      have hempty : faultsInside around.palettes name = [] := by
        rw [faultsInside, itemsOf, hl]
        rfl
      rw [hl] at hadd
      rw [hempty]
      exact .of_ok hadd ⟨palettes, hr, hclean⟩
    | some s =>
      rw [hl] at hadd
      dsimp only at hadd
      by_cases ht : (r.tree.palette? name).isSome = true
      · have hname := hr.palette_iff.1 (FormTree.palette?_isSome_iff.1 ht)
        rw [if_pos ht] at hadd
        rw [hclean name hname]
        exact .of_ok hadd ⟨palettes, hr, hclean⟩
      · rw [if_neg ht] at hadd
        have hitems : itemsOf around.palettes name = ShowItem.parse s := by
          rw [itemsOf, hl]
          rfl
        have hkind : (Content.palette name).kind ≠ .tab := by simp [Content.kind]
        have hput : (put (paletteId name) (.palette name) (part :: rest).dropLast
            r.position).Meets r []
            (Settled around fields tabs columns (fun x => palettes x ∨ x = name) room) := by
          apply meets_put hf hr hkind _ (.palette name) _ (hr.takes_position hkind)
          · intro x
            simp [Content.kind, paletteId]
          · rintro _ ⟨⟩
            rfl
        apply Meets.congr hadd
        apply hput.bind
        intro _ r' hr'
        have hloop : ((ShowItem.parse s).forM (addPaletteItem around name)).Meets r'
            (faultsInside around.palettes name)
            (Settled around fields tabs columns (fun x => palettes x ∨ x = name) room) := by
          rw [faultsInside, hitems]
          apply Meets.forM _ hr'
          intro i hi r hr
          apply meets_addPaletteItem hf hr (.inr rfl)
          intro id hid
          apply hids
          rw [hitems]
          exact List.mem_flatMap.2 ⟨i, hi, hid⟩
        apply hloop.imp
        intro hnil r hr
        have hclean' (x : String) (hx : palettes x ∨ x = name) :
            faultsInside around.palettes x = [] := by
          rcases hx with hx | rfl
          · exact hclean x hx
          · exact hnil
        exact ⟨_, hr, hclean'⟩

/-- Opening a tab takes up some of the room for tabs. It succeeds also if there is no tab yet. -/
theorem meets_openTab (hr : r.Orderly around fields tabs columns palettes (room + 1)) (item : Item) :
    (openTab item).Meets r [] (Settled around fields tabs columns palettes room) := by
  have hlt : r.tree.tabs.length < tabs := by
    have := hr.room_eq
    omega
  -- A node of this id would be a tab, and the numbers of the tabs are smaller.
  have hid : r.tree.node? (toString r.tree.tabs.length) = none := by
    cases hn : r.tree.node? (toString r.tree.tabs.length) with
    | none => rfl
    | some n =>
      have hk := (hr.named (FormTree.kind?_of_node? hn)).unique hf (.tab hlt)
      have hm := hr.linked.mem_tabs.2 ⟨not_false, n, hn, hk⟩
      rw [hr.numbered, List.mem_map] at hm
      obtain ⟨k, hk, he⟩ := hm
      rw [List.length_map, List.length_range] at he
      exact absurd (toString_nat_injective he) (Nat.ne_of_lt (List.mem_range.1 hk))
  obtain ⟨u, hu⟩ : ∃ u, r.tree.tab (toString r.tree.tabs.length) = .ok u := by
    apply FormTree.exists_create
    intro k hk
    rw [FormTree.kind?_eq_none_iff.2 hid] at hk
    cases hk
  have hopen := openTab_eq item r
  have hlinked := (hr.linked.create (by simp) hu).update (toString r.tree.tabs.length)
    (Node.keepsLinks_slots (item.drop 1))
  have htabs := hr.linked.tabs_create_tab hid hu
  have hkinds := FormTree.kind?_create_tab hid hu
  dsimp only at hopen
  rw [hu] at hopen
  apply Meets.of_ok hopen
  apply hr.grow hf hlinked (.tab hlt) _ _ _ _ _ (.inr ⟨rfl, rfl⟩)
  · intro x
    rw [FormTree.kind?_update _ _ (Node.keepsLinks_slots _).kind, hkinds]
  · intro name
    simp
  · rw [FormTree.tabs_update, htabs, List.length_append, List.length_singleton, List.range_succ,
      List.map_append, ← hr.numbered]
    rfl
  · rw [FormTree.tabs_update, htabs]
    simp
  · rw [FormTree.tabs_update, htabs, List.length_append, List.length_singleton, Nat.add_assoc,
      Nat.add_comm 1]
    exact hr.room_eq

/-- The tab that items without one of their own go to. -/
theorem meets_ensureTab (hr : r.Orderly around fields tabs columns palettes (room + 1))
    (ht : r.tree.tabs = []) :
    ensureTab.Meets r [] (Settled around fields tabs columns palettes room) := by
  have hroom := hr.room_eq
  have htabs := hr.linked.tabs_ensureTab_of_nil ht
  rw [ht, List.length_nil, Nat.zero_add] at hroom
  apply Meets.of_ok (ensureTab_eq r)
  apply hr.grow hf hr.linked.ensureTab (.tab _) _ _ _ _ _ (.inl rfl)
  · exact 0
  · omega
  · intro x
    rw [hr.linked.kind?_ensureTab_of_nil ht, FormTree.kind?, FormTree.node?,
      hr.linked.nodes_eq_nil ht]
    rfl
  · intro name
    simp
  · rw [htabs]
    rfl
  · rw [htabs]
    simp
  · rw [htabs, List.length_singleton, Nat.add_comm]
    exact hroom

/-- An item that opens a tab takes up room for one. -/
theorem meets_addItem {item : Item}
    (hr : r.Flawless around fields tabs columns (tabCount [item] + room))
    (hids : ∀ id ∈ around.fieldsOf columns item, fields id) :
    (addItem around item).Meets r (faultsOf around.palettes item)
      (Flawless around fields tabs columns room) := by
  have hstays (hk : item.kind ≠ .special .tab) : tabCount [item] + room = room := by
    simp [tabCount, hk]
  have hplain (hk : item.kind ≠ .special .palette) :
      faultsOf around.palettes item = item.fault?.toList := by
    rw [faultsOf, Item.reference?_of_kind hk]
  cases hk : item.kind with
  | field id =>
    rw [hstays (by simp [hk])] at hr
    rw [hplain (by simp [hk]), Item.fault?, hk]
    obtain ⟨palettes, hr, hclean⟩ := hr
    apply Meets.congr (addItem_field around hk r)
    apply (meets_addField hf hr false _ (hr.takes_position (by simp)) _).imp
    · intro _ r' hr'
      exact ⟨palettes, hr', hclean⟩
    · intro hknown
      apply hids
      rw [Surroundings.fieldsOf, Item.reference?_of_kind (by simp [hk]), Item.fieldIds, hk]
      simpa using hknown
  | special token =>
    cases token with
    | tab =>
      have hopen : tabCount [item] + room = room + 1 := by
        simp [tabCount, hk, Nat.add_comm]
      rw [hopen] at hr
      rw [hplain (by simp [hk]), Item.fault?, hk, addItem_tab around hk]
      obtain ⟨palettes, hr, hclean⟩ := hr
      apply (meets_openTab hf hr.toOrderly item).imp
      intro _ r' hr'
      exact ⟨palettes, hr', hclean⟩
    | palette =>
      rw [hstays (by simp [hk])] at hr
      rw [addItem_palette around hk]
      exact meets_addPalette hf hr hk hids
    | lineBreak =>
      rw [hstays (by simp [hk])] at hr
      rw [hplain (by simp [hk]), Item.fault?, hk]
      obtain ⟨palettes, hr, hclean⟩ := hr
      apply Meets.congr (addItem_lineBreak around hk r)
      apply (meets_lineBreak hf hr (hr.takes_position (by simp))).imp
      intro _ r' hr'
      exact ⟨palettes, hr', hclean⟩
    | unknown token =>
      rw [hplain (by simp [hk]), Item.fault?, hk, addItem, hk]
      exact .of_throw _

/-- Items fail with the first thing that is wrong with any of them. -/
theorem meets_takeIn {items : List Item}
    (hr : r.Flawless around fields tabs columns (tabCount items))
    (hids : ∀ item ∈ items, ∀ id ∈ around.fieldsOf columns item, fields id) :
    (takeIn around items).Meets r (items.flatMap (faultsOf around.palettes)) fun _ => True := by
  induction items generalizing r with
  | nil => exact .of_ok (ensureTab_eq r) trivial
  | cons item rest ih =>
    have hsum : tabCount (item :: rest) = tabCount [item] + tabCount rest := by
      rw [tabCount, tabCount, tabCount, ← List.countP_append]
      rfl
    rw [hsum] at hr
    rw [takeIn_cons, List.flatMap_cons]
    apply (meets_addItem hf hr (hids item List.mem_cons_self)).bind
    intro _ r' hr'
    exact ih hr' fun i hi => hids i (List.mem_cons_of_mem item hi)

/-- Reading takes a tab first, by the first item or before it. -/
theorem meets_fill {items : List Item} (ht : tabsOf items = tabs) (hc : r.columns = columns)
    (htab : r.tab = none) (hids : ∀ item ∈ items, ∀ id ∈ around.fieldsOf columns item, fields id) :
    (fill around items).Meets r (items.flatMap (faultsOf around.palettes)) fun _ => True := by
  have hempty (x : String) : r.tree.reset.kind? x = none := rfl
  have hstart {room} (hroom : room = tabs) : { r with tree := r.tree.reset }.Orderly around fields
      tabs columns (fun _ => False) room := by
    constructor
    case linked => exact FormTree.Linked.reset _
    case numbered => rfl
    case named =>
      intro x k hx
      cases (hempty x).symm.trans hx
    case palette_iff =>
      intro name
      constructor
      · intro hx
        cases (hempty _).symm.trans hx
      · exact False.elim
    case opened =>
      intro x hx
      cases htab.symm.trans hx
    case known =>
      intro x hx
      rw [← hc]
      exact .inl hx
    case room_eq => exact (Nat.zero_add room).trans hroom
  have hflawless {r : Reading} {room} (h : r.Settled around fields tabs columns (fun _ => False) room) :
      r.Flawless around fields tabs columns room := ⟨_, h, fun _ => False.elim⟩
  apply Meets.congr (fill_eq around items r)
  by_cases hfirst : startsWithTab items = true
  · rw [tabsOf, if_pos hfirst, Nat.add_zero] at ht
    rw [if_pos hfirst]
    cases items with
    | nil => cases hfirst
    | cons item rest =>
      have hk : item.kind = .special .tab := of_decide_eq_true hfirst
      have hroom : tabCount rest + 1 = tabs := by
        rw [← ht]
        simp [tabCount, hk]
      have hfault : faultsOf around.palettes item = [] := by
        rw [faultsOf, Item.reference?_of_kind (by simp [hk]), Item.fault?, hk]
        rfl
      rw [takeIn_cons, List.flatMap_cons, hfault, addItem_tab around hk]
      apply (meets_openTab hf (hstart hroom) item).bind
      intro _ r' hr'
      exact meets_takeIn hf (hflawless hr') fun i hi => hids i (List.mem_cons_of_mem item hi)
  · rw [tabsOf, if_neg hfirst] at ht
    rw [if_neg hfirst, ← List.nil_append (items.flatMap _)]
    apply (meets_ensureTab hf (hstart ht) rfl).bind
    intro _ r' hr'
    exact meets_takeIn hf (hflawless hr') hids

end

end Step

theorem trimmed_toString (k : Nat) : Text.Trimmed (toString k).toList :=
  Text.trimmed_of_forall fun _ hc => Text.isBlank_of_isDigit (isDigit_of_mem_toString hc)

theorem trimmed_paletteId (hn : Text.Trimmed name.toList) :
    Text.Trimmed (paletteId name).toList := by
  have hlist : (paletteId name).toList = [':'].intercalate ["palette".toList, name.toList] := by
    rw [paletteId, List.intercalate_cons_cons, List.intercalate_singleton, String.toList_append]
    rfl
  have hsep : Text.isBlank ':' = false := by decide
  rw [hlist]
  apply Text.trimmed_intercalate hsep
  intro p hp
  rcases List.mem_pair.1 hp with rfl | rfl
  · rw [Text.trimmed_iff]
    decide +kernel
  · exact hn

theorem toString_ne_empty (k : Nat) : toString k ≠ "" := by
  intro h
  have hdigits : (toString k).toList = Nat.toDigits 10 k := Nat.toList_repr
  rw [h] at hdigits
  exact Nat.toDigits_ne_nil hdigits.symm

theorem paletteId_ne_empty (name : String) : paletteId name ≠ "" := by
  simp [paletteId, String.append_eq_empty_iff]

theorem parse_positions (layout : Layout) :
    ∀ p ∈ layout.positions, Position.parse p.text = .ok p := by
  intro p hp
  apply Position.parse_text
  intro target htarget
  rcases List.mem_cons.1 hp with rfl | hp
  · cases htarget
  · obtain ⟨x, hx, rfl⟩ := List.mem_map.1 hp
    cases htarget
    rcases List.mem_append.1 hx with hx | hx
    · obtain ⟨k, _, rfl⟩ := List.mem_map.1 hx
      exact ⟨trimmed_toString k, toString_ne_empty k⟩
    · obtain ⟨name, hname, rfl⟩ := List.mem_map.1 hx
      obtain ⟨item, hitem, href⟩ := List.mem_filterMap.1 hname
      have hplain := (ShowItem.plain_of_mem_parse hitem).1.reference? href
      exact ⟨trimmed_paletteId hplain.trimmed, paletteId_ne_empty name⟩

/-- A fault is always one of the grammar. -/
theorem mem_faults {layout : Layout} {e : Error} (h : e ∈ layout.faults) :
    (∃ token item, e = .unknownSpecialItem token item) ∨
      ∃ item palette, e = .misplacedSpecialItem item palette := by
  obtain ⟨item, _, he⟩ := List.mem_flatMap.1 h
  rw [faultsOf] at he
  split at he
  · next name _ =>
    obtain ⟨i, _, hi⟩ := List.mem_filterMap.1 he
    rw [Item.faultInside?] at hi
    split at hi
    · exact .inr ⟨_, _, (Option.some.inj hi).symm⟩
    · exact .inr ⟨_, _, (Option.some.inj hi).symm⟩
    · exact .inl (Item.fault?_cases hi)
  · exact .inl (Item.fault?_cases (Option.mem_toList.1 he))

/-- Reading fails with the first item that the grammar does not allow, and only if there is one. In
particular no id is given out twice, no node is missing, and no place is refused. -/
theorem failure_read (layout : Layout) (tree : FormTree) (columns : Columns)
    (parent : Option (String → Option Fields)) (h : layout.KeepsIdsApart columns parent) :
    (layout.read tree columns parent).failure = layout.faults.head? ∧
      (∀ e ∈ layout.faults, (∃ token item, e = .unknownSpecialItem token item) ∨
        ∃ item palette, e = .misplacedSpecialItem item palette) ∧
      ∀ p ∈ layout.positions, Position.parse p.text = .ok p := by
  apply And.intro _ ⟨fun e => mem_faults, parse_positions layout⟩
  have hown (id : String) (hid : ∃ item ∈ ShowItem.parse layout.showItem,
      id ∈ Surroundings.fieldsOf ⟨layout.palettes, parent⟩ columns item) :
      OwnId (tabsOf (ShowItem.parse layout.showItem)) id := by
    obtain ⟨item, hitem, hid⟩ := hid
    obtain ⟨hcolon, htab⟩ := h item hitem id hid
    exact ⟨hcolon, fun {k} => htab k, Surroundings.ofPart?_of_mem_fieldsOf hid⟩
  have hmeets : (fill ⟨layout.palettes, parent⟩ (ShowItem.parse layout.showItem)).Meets
      ⟨tree, columns, none, []⟩ layout.faults fun _ => True :=
    Step.meets_fill hown rfl rfl rfl fun item hitem id hid => ⟨item, hitem, hid⟩
  rw [read]
  rw [Step.Meets] at hmeets
  split
  · next r hr =>
    rw [hr] at hmeets
    rw [hmeets.1]
    rfl
  · next e r hr =>
    rw [hr] at hmeets
    exact hmeets.symm

theorem failure_read_of_misplacedTab :
    (Layout.read ⟨"a,--palette--;;p,--foo--,2", [("p", "b,--div--;x")]⟩ (.empty "general")
      [("a", []), ("2", [])] none).failure = some (.misplacedSpecialItem "--div--;x" "p") := by
  have h := failure_read ⟨"a,--palette--;;p,--foo--,2", [("p", "b,--div--;x")]⟩ (.empty "general")
    [("a", []), ("2", [])] none (by decide +kernel)
  rw [h.1]
  decide +kernel

/-- A field that is named like a tab is refused after the tab, or the tab after the field. -/
theorem failure_read_of_numeralField :
    (Layout.read ⟨"1,--div--;x", []⟩ (.empty "general") [("1", [])] none).failure =
        some (.idCollision "1" .field .tab) ∧
      (Layout.read ⟨"--div--,--div--,1", []⟩ (.empty "general") [("1", [])] none).failure =
        some (.idCollision "1" .tab .field) ∧
      faults ⟨"1,--div--;x", []⟩ = [] ∧ faults ⟨"--div--,--div--,1", []⟩ = [] := by
  decide +kernel

end Layout

end FormLayout
