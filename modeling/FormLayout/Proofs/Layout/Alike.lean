import FormLayout.Proofs.Form.Alike
import FormLayout.Proofs.Layout.Replay
/-!
Layouts whose show items have the same canonical form. Their items are the same up to empty parts at
the end, so that reading them goes step by step through alike trees.
-/

namespace FormLayout
set_option autoImplicit true

theorem Item.drop_of_trimEnd_eq {item item' : Item} (h : item.trimEnd = item'.trimEnd) :
    Slots.trimEnd (item.drop 1) = Slots.trimEnd (item'.drop 1) := by
  have hdrop (item : Item) : Slots.trimEnd (item.drop 1) = item.trimEnd.drop 1 := by
    cases item <;> rfl
  rw [hdrop, hdrop, h]

namespace ShowItem

/-- The items of palettes. Their last part is a name, so that an empty one counts. -/
def paletteItems (s : String) : List Item :=
  (parse s).filter fun item => item.kind = .special .palette

theorem forall₂_of_map_trimEnd {l l' : List Item} (h : l.map Item.trimEnd = l'.map Item.trimEnd) :
    List.Forall₂ (fun item item' => item.trimEnd = item'.trimEnd) l l' := by
  rw [← List.forall₂_eq_eq_eq, List.forall₂_map_left_iff, List.forall₂_map_right_iff] at h
  exact h

theorem forall₂_of_filter {p : Item → Bool} (h : List.Forall₂ R l l')
    (hp : ∀ item item', R item item' → p item = p item') (hf : l.filter p = l'.filter p) :
    List.Forall₂ (fun item item' => R item item' ∧ (p item = true → item = item')) l l' := by
  induction h with
  | nil => exact .nil
  | @cons item item' l l' hi _ ih =>
    rw [List.filter_cons, List.filter_cons, ← hp item item' hi] at hf
    split at hf
    · obtain ⟨he, hrest⟩ := List.cons.inj hf
      exact .cons ⟨hi, fun _ => he⟩ (ih hrest)
    · next hne => exact .cons ⟨hi, fun ht => absurd ht hne⟩ (ih hf)

theorem forall₂_of_paletteItems (h : (parse s).map Item.trimEnd = (parse s').map Item.trimEnd)
    (hp : paletteItems s = paletteItems s') : List.Forall₂ (fun item item' =>
      item.trimEnd = item'.trimEnd ∧ (item.kind = .special .palette → item = item'))
      (parse s) (parse s') := by
  refine (forall₂_of_filter (forall₂_of_map_trimEnd h) (fun item item' hi => ?_) hp).imp
    fun item item' hi => ⟨hi.1, fun hk => hi.2 (decide_eq_true hk)⟩
  rw [Item.kind_of_trimEnd_eq hi]

end ShowItem

namespace Layout

/-- The same parent, and palettes of the same canonical forms. -/
structure Surroundings.Alike (around around' : Surroundings) : Prop where
  parent : around.parent = around'.parent
  palettes (name : String) : (around.palettes.get? name).map ShowItem.canonical =
    (around'.palettes.get? name).map ShowItem.canonical

theorem Surroundings.Alike.config? {around around' : Surroundings} (h : around.Alike around')
    (columns : Columns) (id : String) : around.config? columns id = around'.config? columns id := by
  rw [Surroundings.config?, Surroundings.config?, h.parent]

/-- Readings that differ in nothing but what their trees are not written with. -/
structure Reading.Alike (r r' : Reading) : Prop where
  tree : r.tree.Alike r'.tree
  columns : r.columns = r'.columns
  tab : r.tab = r'.tab
  asked : r.asked = r'.asked

namespace Reading.Alike

variable {r r' : Reading}

theorem position (h : r.Alike r') : r.position = r'.position := by
  rw [Reading.position, Reading.position, h.tab]

theorem ask (h : r.Alike r') {around around' : Surroundings} (ha : around.Alike around')
    (id : String) : (r.ask around id).Alike (r'.ask around' id) := by
  rw [Reading.ask, Reading.ask, ha.parent]
  split
  · exact { h with asked := congrArg (List.cons id) h.asked }
  · exact h

end Reading.Alike

namespace Step

/-- Both ended in success with the same answer, or both in failure, and left alike readings. -/
inductive AlikeEnds : EStateM.Result Error Reading α → EStateM.Result Error Reading α → Prop where
  | ok (a : α) : r.Alike r' → AlikeEnds (.ok a r) (.ok a r')
  | error : r.Alike r' → AlikeEnds (.error e r) (.error e' r')

/-- Steps that do the same to alike readings. -/
def Alike (s s' : Step α) : Prop := ∀ r r', r.Alike r' → AlikeEnds (s r) (s' r')

theorem AlikeEnds.bind {s s' : Step α} {f f' : α → Step β} (h : AlikeEnds (s r) (s' r'))
    (hf : ∀ a, Alike (f a) (f' a)) : AlikeEnds ((s >>= f) r) ((s' >>= f') r') := by
  rw [bind_eq, bind_eq]
  generalize s r = x, s' r' = y at h
  cases h with
  | ok a h => exact hf a _ _ h
  | error h => exact .error h

theorem forM_blank {f : α → Step Unit} {l : List α} (h : ∀ a ∈ l, ∀ r, f a r = .ok () r)
    (r : Reading) : l.forM f r = .ok () r := by
  induction l with
  | nil => rfl
  | cons a rest ih =>
    rw [List.forall_mem_cons] at h
    rw [forM_cons_eq, h.1]
    exact ih h.2

namespace Alike

theorem pure (a : α) : Alike (Pure.pure a : Step α) (Pure.pure a) := fun _ _ h => .ok a h

theorem throw (e e' : Error) : Alike (MonadExcept.throw e : Step α) (MonadExcept.throw e') :=
  fun _ _ h => .error h

theorem bind {s s' : Step α} {f f' : α → Step β} (hs : Alike s s') (hf : ∀ a, Alike (f a) (f' a)) :
    Alike (s >>= f) (s' >>= f') := fun r r' h => (hs r r' h).bind hf

theorem forM {R : α → β → Prop} {f : α → Step Unit} {f' : β → Step Unit}
    (h : List.Forall₂ R l l') (hf : ∀ a b, R a b → Alike (f a) (f' b)) :
    Alike (l.forM f) (l'.forM f') := by
  induction h with
  | nil => exact pure ()
  | cons hr _ ih => exact (hf _ _ hr).bind fun _ => ih

/-- The items of two texts of one canonical form, where blank items do nothing. -/
theorem forM_parse {R : Item → Item → Prop} {f f' : Item → Step Unit}
    (h : ShowItem.canonical s = ShowItem.canonical s')
    (hR : (ShowItem.parse s).map Item.trimEnd = (ShowItem.parse s').map Item.trimEnd →
      List.Forall₂ R (ShowItem.parse s) (ShowItem.parse s'))
    (hf : ∀ item item', R item item' → Alike (f item) (f' item'))
    (hblank : ∀ item : Item, item.trimEnd = [""] → ∀ r, f item r = .ok () r)
    (hblank' : ∀ item : Item, item.trimEnd = [""] → ∀ r, f' item r = .ok () r) :
    Alike ((ShowItem.parse s).forM f) ((ShowItem.parse s').forM f') := by
  -- No item at all has the canonical form of one blank item, so the lists may differ in length.
  rcases ShowItem.parse_of_canonical_eq h with hmap | ⟨hs, hs'⟩
  · exact forM (hR hmap) hf
  · intro r r' hr
    rw [forM_blank fun item hm => hblank item (ShowItem.trimEnd_of_essence_nil hs item hm),
      forM_blank fun item hm => hblank' item (ShowItem.trimEnd_of_essence_nil hs' item hm)]
    exact .ok () hr

theorem ensureTab : Alike ensureTab ensureTab := by
  intro r r' h
  rw [ensureTab_eq, ensureTab_eq]
  exact .ok () { h with tree := h.tree.ensureTab.1 }

theorem lineBreak (p : Position) : Alike (lineBreak p) (lineBreak p) := by
  intro r r' h
  obtain ⟨htree, hanswer⟩ := h.tree.lineBreak p
  rw [lineBreak_eq, lineBreak_eq]
  generalize r.tree.lineBreak p = x, r'.tree.lineBreak p = y at htree hanswer
  obtain ⟨t, x⟩ := x
  obtain ⟨u, y⟩ := y
  obtain rfl : x = y := hanswer
  cases x with
  | ok id => exact .ok () { h with tree := htree }
  | error e => exact .error { h with tree := htree }

theorem openTab {item item' : Item} (hi : item.trimEnd = item'.trimEnd) :
    Alike (openTab item) (openTab item') := by
  intro r r' h
  rw [openTab_eq, openTab_eq, h.tree.tabs]
  rcases (h.tree.create (toString r'.tree.tabs.length) .tab).cases with
    ⟨t, u, ht, hu, halike⟩ | ⟨e, ht, hu⟩
  · simp only [FormTree.tab, ht, hu]
    refine .ok () { h with tree := halike.write _ (Item.drop_of_trimEnd_eq hi) ?_, tab := rfl }
    intro n hn hp
    cases (FormTree.kind_of_create ht hn).symm.trans hp
  · simp only [FormTree.tab, ht, hu]
    exact .error h

theorem put (id : String) (content : Content) {slots slots' : Slots} (p : Position)
    (hs : slots.trimEnd = slots'.trimEnd) (hk : content.kind = .palette → slots = slots') :
    Alike (put id content slots p) (put id content slots' p) := by
  intro r r' h
  rw [put_eq, put_eq]
  rcases (h.tree.create id content).cases with ⟨t, u, ht, hu, halike⟩ | ⟨e, ht, hu⟩
  · rw [ht, hu]
    -- Creating refuses an id of another kind, so the slots of palettes are not written over.
    have hwrite := halike.write id hs fun n hn hp =>
      hk ((FormTree.kind_of_create ht hn).symm.trans hp)
    dsimp only
    rcases (hwrite.place id p).cases with ⟨v, w, hv, hw, hplace⟩ | ⟨e, hv, hw⟩
    · rw [hv, hw]
      exact .ok () { h with tree := hplace }
    · rw [hv, hw]
      exact .error { h with tree := hwrite }
  · rw [ht, hu]
    exact .error h

variable {around around' : Surroundings}

theorem addField (ha : around.Alike around') (inPalette : Bool) (id : String)
    {slots slots' : Slots} (hs : slots.trimEnd = slots'.trimEnd) (p : Position) :
    Alike (addField around inPalette id slots p) (addField around' inPalette id slots' p) := by
  have hput (config : Fields) :
      Alike (placeField id config slots p) (placeField id config slots' p) :=
    put id (.field config) p hs (by rintro ⟨⟩)
  intro r r' h
  have hfield : (r.tree.field? id).isSome = (r'.tree.field? id).isSome := by
    rw [Bool.eq_iff_iff, FormTree.field?_isSome_iff, FormTree.field?_isSome_iff, h.tree.kind?]
  have hask := h.ask ha id
  rw [addField_eq, addField_eq, hfield, h.columns, ha.config?]
  split
  · exact .ok () h
  · split
    · exact hput [] r r' h
    · split
      · exact hput _ _ _ hask
      · split
        · exact hput [] _ _ { hask with columns := congrArg (Entries.put · id []) hask.columns }
        · exact .ok () hask

/-- Items of a palette that differ at their ends only. -/
theorem addPaletteItem (ha : around.Alike around') (name : String) {item item' : Item}
    (hi : item.trimEnd = item'.trimEnd) :
    Alike (addPaletteItem around name item) (addPaletteItem around' name item') := by
  rw [Step.addPaletteItem, Step.addPaletteItem, Item.kind_of_trimEnd_eq hi]
  cases item'.kind with
  | field id => exact addField ha true id (Item.drop_of_trimEnd_eq hi) _
  | special token =>
    cases token with
    | lineBreak => exact lineBreak _
    | tab => exact throw _ _
    | palette => exact throw _ _
    | unknown name => exact throw _ _

/-- The items of a stored palette in its two forms. -/
theorem forM_addPaletteItem (ha : around.Alike around') (name : String)
    (h : ShowItem.canonical s = ShowItem.canonical s') :
    Alike ((ShowItem.parse s).forM (Step.addPaletteItem around name))
      ((ShowItem.parse s').forM (Step.addPaletteItem around' name)) := by
  exact forM_parse h ShowItem.forall₂_of_map_trimEnd (fun _ _ hi => addPaletteItem ha name hi)
    (fun _ => addPaletteItem_blank around name) fun _ => addPaletteItem_blank around' name

theorem addPalette (ha : around.Alike around') (item : Item) :
    Alike (addPalette around item) (addPalette around' item) := by
  match item with
  | [] => exact pure ()
  | [_] => exact pure ()
  | lead :: part :: rest =>
    intro r r' h
    have hstored := ha.palettes ((part :: rest).getLastD "")
    have hpalette : (r.tree.palette? ((part :: rest).getLastD "")).isSome =
        (r'.tree.palette? ((part :: rest).getLastD "")).isSome := by
      rw [Bool.eq_iff_iff, FormTree.palette?_isSome_iff, FormTree.palette?_isSome_iff, h.tree.kind?]
    rw [addPalette_eq, addPalette_eq]
    dsimp only
    generalize around.palettes.get? _ = stored, around'.palettes.get? _ = stored' at hstored
    rw [hpalette, h.position]
    cases stored with
    | none =>
      rw [Option.map_eq_none_iff.1 hstored.symm]
      exact .ok () h
    | some s =>
      obtain ⟨s', rfl, hs⟩ := Option.map_eq_some_iff.1 hstored.symm
      dsimp only
      split
      · exact .ok () h
      · exact (put _ _ _ rfl (fun _ => rfl) r r' h).bind fun _ => forM_addPaletteItem ha _ hs.symm

/-- Items that differ at their ends only, and not even there if they are palettes. -/
theorem addItem (ha : around.Alike around') {item item' : Item} (hi : item.trimEnd = item'.trimEnd)
    (hp : item.kind = .special .palette → item = item') :
    Alike (addItem around item) (addItem around' item') := by
  intro r r' h
  have hk := Item.kind_of_trimEnd_eq hi
  cases hkind : item.kind with
  | field id =>
    rw [addItem_field around hkind, addItem_field around' (hk ▸ hkind), h.position]
    exact addField ha false id (Item.drop_of_trimEnd_eq hi) _ r r' h
  | special token =>
    cases token with
    | tab =>
      rw [addItem_tab around hkind, addItem_tab around' (hk ▸ hkind)]
      exact openTab hi r r' h
    | palette =>
      rw [addItem_palette around hkind, addItem_palette around' (hk ▸ hkind), hp hkind]
      exact addPalette ha item' r r' h
    | lineBreak =>
      rw [addItem_lineBreak around hkind, addItem_lineBreak around' (hk ▸ hkind), h.position]
      exact lineBreak _ r r' h
    | unknown name =>
      rw [Step.addItem, Step.addItem, ← hk, hkind]
      exact throw _ _ r r' h

end Alike

theorem addItem_blank (around : Surroundings) {item : Item} (h : item.trimEnd = [""])
    (r : Reading) : addItem around item r = .ok () r := by
  rw [addItem_field around (Item.kind_of_blank h), addField_eq, if_pos rfl]

end Step

theorem startsWithTab_of_essence_nil (h : ShowItem.essence s = []) :
    startsWithTab (ShowItem.parse s) = false := by
  have hblank := ShowItem.trimEnd_of_essence_nil h
  cases hp : ShowItem.parse s with
  | nil => rfl
  | cons item rest =>
    rw [hp] at hblank
    rw [startsWithTab, Item.kind_of_blank (hblank item List.mem_cons_self)]
    rfl

theorem startsWithTab_of_canonical_eq (h : ShowItem.canonical s = ShowItem.canonical s') :
    startsWithTab (ShowItem.parse s) = startsWithTab (ShowItem.parse s') := by
  rcases ShowItem.parse_of_canonical_eq h with hmap | ⟨hs, hs'⟩
  · have hitems := ShowItem.forall₂_of_map_trimEnd hmap
    generalize ShowItem.parse s = l, ShowItem.parse s' = l' at hitems
    cases hitems with
    | nil => rfl
    | cons hi _ => rw [startsWithTab, startsWithTab, Item.kind_of_trimEnd_eq hi]
  · rw [startsWithTab_of_essence_nil hs, startsWithTab_of_essence_nil hs']

variable {around around' : Surroundings} {s s' : String}

theorem takeIn_alike (ha : around.Alike around')
    (h : ShowItem.canonical s = ShowItem.canonical s')
    (hp : ShowItem.paletteItems s = ShowItem.paletteItems s') :
    Step.Alike (takeIn around (ShowItem.parse s)) (takeIn around' (ShowItem.parse s')) := by
  refine Step.Alike.bind ?_ fun _ => Step.Alike.ensureTab
  exact Step.Alike.forM_parse h (ShowItem.forall₂_of_paletteItems · hp)
    (fun _ _ hi => Step.Alike.addItem ha hi.1 hi.2) (fun _ => Step.addItem_blank around)
    fun _ => Step.addItem_blank around'

theorem fill_alike (ha : around.Alike around') (h : ShowItem.canonical s = ShowItem.canonical s')
    (hp : ShowItem.paletteItems s = ShowItem.paletteItems s') :
    Step.Alike (fill around (ShowItem.parse s)) (fill around' (ShowItem.parse s')) := by
  have htake := takeIn_alike ha h hp
  intro r r' hr
  have hreset : Reading.Alike { r with tree := r.tree.reset } { r' with tree := r'.tree.reset } :=
    { hr with tree := hr.tree.reset }
  rw [fill_eq, fill_eq, startsWithTab_of_canonical_eq h]
  split
  · exact htake _ _ hreset
  · exact (Step.Alike.ensureTab.bind fun _ => htake) _ _ hreset

/-- Outcomes of reading that both are failures or neither is, with the same columns, the same
questions to the parent, and trees that are written the same way. -/
structure Filled.Alike (f f' : Filled) : Prop where
  failed : f.failure.isSome = f'.failure.isSome
  columns : f.columns = f'.columns
  asked : f.asked = f'.asked
  layout : f.tree.layout = f'.tree.layout

theorem read_alike (h : ShowItem.canonical s = ShowItem.canonical s')
    (hp : ShowItem.paletteItems s = ShowItem.paletteItems s') {palettes palettes' : Palettes}
    (hpalettes : ∀ name, (palettes.get? name).map ShowItem.canonical =
      (palettes'.get? name).map ShowItem.canonical)
    (tree : FormTree) (columns : Columns) (parent : Option (String → Option Fields)) :
    (Layout.read ⟨s, palettes⟩ tree columns parent).Alike
      (Layout.read ⟨s', palettes'⟩ tree columns parent) := by
  have ha : Surroundings.Alike ⟨palettes, parent⟩ ⟨palettes', parent⟩ := ⟨rfl, hpalettes⟩
  have hstart : Reading.Alike ⟨tree, columns, none, []⟩ ⟨tree, columns, none, []⟩ :=
    ⟨FormTree.Alike.refl tree, rfl, rfl, rfl⟩
  have hfill := fill_alike ha h hp _ _ hstart
  rw [Layout.read, Layout.read]
  generalize fill ⟨palettes, parent⟩ _ _ = x, fill ⟨palettes', parent⟩ _ _ = y at hfill
  cases hfill with
  | ok _ hr => exact ⟨rfl, hr.columns, congrArg List.reverse hr.asked, hr.tree.layout⟩
  | error hr => exact ⟨rfl, hr.columns, congrArg List.reverse hr.asked, hr.tree.layout⟩

/-- Texts of one canonical form describe the same layout, whatever the palettes, the columns and the
parent are, if their palette items are the same: a name is read from the last part, so that an
empty part at the end of such an item counts although the canonical form drops it. As show items of
a palette they describe the same in any case. -/
theorem read_of_canonical_eq (h : ShowItem.canonical s = ShowItem.canonical s') (tree : FormTree)
    (columns : Columns) (parent : Option (String → Option Fields)) :
    (ShowItem.paletteItems s = ShowItem.paletteItems s' →
      ∀ palettes, (Layout.read ⟨s, palettes⟩ tree columns parent).Alike
        (Layout.read ⟨s', palettes⟩ tree columns parent)) ∧
    ∀ showItem palettes name,
      (Layout.read ⟨showItem, Entries.put palettes name s⟩ tree columns parent).Alike
        (Layout.read ⟨showItem, Entries.put palettes name s'⟩ tree columns parent) := by
  constructor
  · exact fun hp palettes => read_alike h hp (fun _ => rfl) tree columns parent
  · intro showItem palettes name
    refine read_alike rfl rfl (fun x => ?_) tree columns parent
    rw [Entries.get?_put, Entries.get?_put]
    split
    · exact congrArg some h
    · rfl

theorem read_of_canonical_eq_blanks :
    let spaced := " a ; x ;;, --palette--;;p ,b;"
    let tight := "a;x,--palette--;;p,b"
    let tree := FormTree.empty "general"
    let columns : Columns := [("a", []), ("b", [])]
    ShowItem.canonical spaced = ShowItem.canonical tight ∧
      ShowItem.paletteItems spaced = ShowItem.paletteItems tight ∧
      (Layout.read ⟨spaced, [("p", "c")]⟩ tree columns none).Alike
        (Layout.read ⟨tight, [("p", "c")]⟩ tree columns none) ∧
      (Layout.read ⟨"--palette--;;q", Entries.put [] "q" spaced⟩ tree columns none).Alike
        (Layout.read ⟨"--palette--;;q", Entries.put [] "q" tight⟩ tree columns none) := by
  intro spaced tight tree columns
  have h : ShowItem.canonical spaced = ShowItem.canonical tight := by decide +kernel
  have hp : ShowItem.paletteItems spaced = ShowItem.paletteItems tight := by decide +kernel
  have hread := read_of_canonical_eq h tree columns none
  exact ⟨h, hp, hread.1 hp [("p", "c")], hread.2 "--palette--;;q" [] "q"⟩

/-- An empty part behind the name of a palette takes the name away, and the palette with it. -/
theorem read_of_emptyName :
    let palettes : Palettes := [("p", "a")]
    let tree := FormTree.empty "general"
    let unnamed := Layout.read ⟨"--palette--;;p;", palettes⟩ tree [("a", [])] none
    let named := Layout.read ⟨"--palette--;;p", palettes⟩ tree [("a", [])] none
    ShowItem.canonical "--palette--;;p;" = ShowItem.canonical "--palette--;;p" ∧
      unnamed.failure.isSome = false ∧ named.failure.isSome = false ∧
      unnamed.tree.layout ≠ named.tree.layout := by
  decide +kernel

end Layout

end FormLayout
