import FormLayout.Proofs.Form.Consistency
import FormLayout.Proofs.Layout.Replay
import Mathlib.Data.List.Flatten
/-!
A tree that was written is read again as a tree with the same items in the same containers, for as
long as its fields are known and the stored palettes have the layouts that were written.
-/

namespace FormLayout
set_option autoImplicit true

theorem flatMap_filterMap (f : α → Option β) (g : β → List γ) (l : List α) :
    (l.filterMap f).flatMap g = l.flatMap fun a => (f a).toList.flatMap g := by
  rw [List.filterMap_eq_flatMap_toList, List.flatMap_assoc]

namespace Layout

/-- What a reader has to have for the layout that a tree is written as. -/
structure Covers (around : Surroundings) (columns : Columns) (t : FormTree) : Prop where
  inside? {id : String} {n : Node} {name : String} : t.node? id = some n →
    n.content = .palette name → around.inside? name = some (t.inside id)
  known {id : String} {n : Node} {config : Fields} : t.node? id = some n →
    n.content = .field config → (around.config? columns id).isSome = true

/-- No field of the tree has the number of a tab. -/
def Unnumbered (t : FormTree) : Prop := ∀ k < t.tabs.length, t.field? (toString k) = none

variable {around : Surroundings} {columns : Columns} {t : FormTree} {loose : String → Prop}
  {label : String}

theorem fieldIds_itemInPalette? (hp : Node.Plain n) (hi : itemInPalette? n = some item) :
    item.fieldIds = if n.kind = .field then [n.id] else [] := by
  rcases itemInPalette?_cases hi with ⟨config, hc, rfl⟩ | ⟨hc, rfl⟩
  · rw [Item.fieldIds, kind_fieldItem (hp.field hc).2.2, Node.kind, hc]
    rfl
  · rw [Item.fieldIds, kind_lineBreakItem, Node.kind, hc]
    rfl

theorem ids_fieldItem (hp : Node.Plain n) (hc : n.content = .field config) :
    around.ids (fieldItem n) = [n.id] := by
  have hk := kind_fieldItem (hp.field hc).2.2
  rw [around.ids_of_kind (by rw [hk]; simp), Item.fieldIds, hk]

theorem Covers.ids_paletteItem (h : Covers around columns t) (hl : t.Linked loose)
    {id : String} (hn : t.node? id = some n) (hc : n.content = .palette name) :
    around.ids (paletteItem n name) = n.id :: (t.inside n.id).flatMap Item.fieldIds := by
  rw [Surroundings.ids_of_reference (reference?_paletteItem n name) (h.inside? hn hc),
    ← hl.palette_keyed hn (Node.palette?_eq_some_iff.2 hc), hl.keyed hn]

theorem regularInside (h : Covers around columns t) (hl : t.Linked loose)
    (hp : t.Holds label Node.Plain) {id : String} : ∀ i ∈ t.inside id,
      Item.RegularInside (fun id => (around.config? columns id).isSome) i := by
  intro i hi
  cases FormTree.writesInside_of_mem hi with
  | @field x n _ hn hc =>
    obtain ⟨_, hne, hspecial⟩ := (hp.nodes hn).field hc
    have htrim := Item.trimEnd_trimEnd (n.id :: n.slots)
    exact .field hspecial hne (by rw [hl.keyed hn]; exact h.known hn hc) htrim
  | lineBreak => exact .lineBreak

theorem regular_items (h : Covers around columns t) (hl : t.Linked loose)
    (hp : t.Holds label Node.Plain) : ∀ i ∈ t.items,
      Item.Regular around.inside? (fun id => (around.config? columns id).isSome) i := by
  intro i hi
  cases FormTree.writes_of_mem hi with
  | @tab _ n _ => exact .tab (Item.trimEnd_trimEnd (SpecialToken.tab.dashed :: n.slots))
  | @field x n _ hn hc =>
    obtain ⟨_, hne, hspecial⟩ := (hp.nodes hn).field hc
    have htrim := Item.trimEnd_trimEnd (n.id :: n.slots)
    exact .field hspecial hne (by rw [hl.keyed hn]; exact h.known hn hc) htrim
  | palette hn hc =>
    refine .palette ?_ (h.inside? hn hc) (regularInside h hl hp)
    split
    · exact List.cons_ne_nil _ _
    · next hs => simpa using hs

theorem startsWithTab_items (hl : t.Linked loose) (ht : t.tabs ≠ []) :
    startsWithTab t.items = true := by
  obtain ⟨tab, rest, he⟩ := List.exists_cons_of_ne_nil ht
  obtain ⟨_, n, hn, _⟩ := hl.mem_tabs.1 (he ▸ List.mem_cons_self : tab ∈ t.tabs)
  have hitems : t.items = tabItem n :: ((t.childNodes n.id).filterMap itemInTab? ++
      (rest.filterMap t.node?).flatMap t.itemsOfTab) := by
    rw [FormTree.items, FormTree.tabNodes, he, List.filterMap_cons_some hn, List.flatMap_cons]
    rfl
  rw [hitems, startsWithTab, kind_tabItem]
  rfl

/-- Every tab opens with its own item, and no other item opens one. -/
theorem tabCount_items (hl : t.Linked loose) (hp : t.Holds label Node.Plain) :
    tabCount t.items = t.tabs.length := by
  have htab {tab x} (hx : t.node? x = some tab) : tabCount (t.itemsOfTab tab) = 1 := by
    rw [FormTree.itemsOfTab, tabCount, List.countP_cons_of_pos (by simp [kind_tabItem]),
      List.countP_eq_zero.2]
    intro i hi
    obtain ⟨n, hn, hi⟩ := List.mem_filterMap.1 hi
    obtain ⟨x, hn⟩ := FormTree.mem_childNodes hn
    rcases itemInTab?_cases hi with ⟨config, hc, rfl⟩ | ⟨name, hc, rfl⟩
    · simp [kind_fieldItem ((hp.nodes hn).field hc).2.2]
    · simp [kind_paletteItem]
  have hlen : t.tabNodes.length = t.tabs.length := by
    rw [FormTree.tabNodes, List.length_filterMap_eq_countP, List.countP_eq_length]
    intro x hx
    obtain ⟨_, n, hn, _⟩ := hl.mem_tabs.1 hx
    rw [hn]
    rfl
  have hone : t.tabNodes.map (tabCount ∘ t.itemsOfTab) = t.tabNodes.map fun _ => 1 := by
    refine List.map_congr_left fun tab ht => ?_
    obtain ⟨x, hx⟩ := FormTree.mem_tabNodes ht
    exact htab hx
  rw [FormTree.items, tabCount, List.countP_flatMap, ← hlen]
  exact (congrArg List.sum hone).trans (by simp)

theorem ids_inside_sublist (hp : t.Holds label Node.Plain) (id : String) :
    ((t.inside id).flatMap Item.fieldIds).Sublist
      (((t.node? id).toList.flatMap fun n => n.children.flatMap (t.subtree 1)).map Node.id) := by
  rw [FormTree.inside, FormTree.childNodes]
  cases hn : t.node? id with
  | none => exact .slnil
  | some n =>
    dsimp only
    rw [List.filterMap_filterMap, flatMap_filterMap, Option.toList_some, List.flatMap_singleton,
      List.map_flatMap]
    refine List.Sublist.flatMap_right _ fun c _ => ?_
    cases hc : t.node? c with
    | none => exact List.nil_sublist _
    | some k =>
      rw [FormTree.subtree, hc, Option.bind_some]
      cases hi : itemInPalette? k with
      | none => exact List.nil_sublist _
      | some item =>
        rw [Option.toList_some, List.flatMap_singleton, fieldIds_itemInPalette? (hp.nodes hc) hi]
        split
        · exact (List.nil_sublist _).cons_cons _
        · exact List.nil_sublist _

/-- The ids that the items of a tree bring stand in its walk, in the same order. -/
theorem Covers.ids_sublist (h : Covers around columns t) (hl : t.Linked loose)
    (hp : t.Holds label Node.Plain) : (t.items.flatMap around.ids).Sublist (t.walk.map Node.id) := by
  have hitem {c k} (hc : t.node? c = some k) :
      ((itemInTab? k).toList.flatMap around.ids).Sublist ((t.subtree 2 c).map Node.id) := by
    rw [FormTree.subtree, hc]
    cases hi : itemInTab? k with
    | none => exact List.nil_sublist _
    | some item =>
      rw [Option.toList_some, List.flatMap_singleton]
      rcases itemInTab?_cases hi with ⟨config, hk, rfl⟩ | ⟨name, hk, rfl⟩
      · rw [ids_fieldItem (hp.nodes hc) hk]
        exact (List.nil_sublist _).cons_cons _
      · rw [h.ids_paletteItem hl hc hk, List.map_cons]
        refine List.Sublist.cons_cons _ ?_
        have hs := ids_inside_sublist hp k.id
        rw [hl.keyed hc, hc, Option.toList_some, List.flatMap_singleton] at hs
        rwa [hl.keyed hc]
  rw [FormTree.items, FormTree.walk, FormTree.tabNodes, List.flatMap_assoc, flatMap_filterMap,
    List.map_flatMap]
  refine List.Sublist.flatMap_right _ fun tab _ => ?_
  cases hn : t.node? tab with
  | none => exact List.nil_sublist _
  | some n =>
    have hkids : t.childNodes n.id = n.children.filterMap t.node? := by
      rw [FormTree.childNodes, hl.keyed hn, hn]
    have htab : around.ids (tabItem n) = [] := by
      rw [around.ids_of_kind (by rw [kind_tabItem]; simp), Item.fieldIds, kind_tabItem]
    rw [Option.toList_some, List.flatMap_singleton, FormTree.itemsOfTab, List.flatMap_cons, htab,
      List.nil_append, hkids, List.filterMap_filterMap, flatMap_filterMap, FormTree.levels,
      FormTree.subtree, hn, List.map_cons, List.map_flatMap]
    refine (List.Sublist.flatMap_right _ fun c _ => ?_).cons _
    cases hc : t.node? c with
    | none => exact List.nil_sublist _
    | some k => exact hitem hc

theorem field?_of_node {id : String} (hn : t.node? id = some n) (hk : n.kind = .field) :
    t.field? id = some n := by
  rw [FormTree.field?, hn, Option.filter_some, if_pos (by simpa using hk)]

theorem mem_fieldIds_inside (hl : t.Linked loose) (hp : t.Holds label Node.Plain) {id x : String}
    (hm : x ∈ (t.inside id).flatMap Item.fieldIds) : t.field? x ≠ none := by
  obtain ⟨item, hi, hm⟩ := List.mem_flatMap.1 hm
  cases FormTree.writesInside_of_mem hi with
  | @field y n _ hn hc =>
    rw [Item.fieldIds, kind_fieldItem ((hp.nodes hn).field hc).2.2, List.mem_singleton] at hm
    rw [hm, hl.keyed hn, field?_of_node hn (by rw [Node.kind, hc]; rfl)]
    exact Option.some_ne_none n
  | lineBreak =>
    rw [Item.fieldIds, kind_lineBreakItem] at hm
    cases hm

theorem Covers.mem_ids (h : Covers around columns t) (hl : t.Linked loose)
    (hp : t.Holds label Node.Plain) (hm : x ∈ t.items.flatMap around.ids) :
    t.field? x ≠ none ∨ ∃ name ∈ t.layout.palettes.names, x = paletteId name := by
  obtain ⟨item, hi, hm⟩ := List.mem_flatMap.1 hm
  cases FormTree.writes_of_mem hi with
  | tab hn =>
    rw [around.ids_of_kind (by rw [kind_tabItem]; simp), Item.fieldIds, kind_tabItem] at hm
    cases hm
  | @field y n _ hn hc =>
    rw [ids_fieldItem (hp.nodes hn) hc, List.mem_singleton] at hm
    rw [hm, hl.keyed hn, field?_of_node hn (by rw [Node.kind, hc]; rfl)]
    exact .inl (Option.some_ne_none n)
  | @palette y name n hn hc =>
    rw [h.ids_paletteItem hl hn hc] at hm
    rcases List.mem_cons.1 hm with rfl | hm
    · have hname := hl.mem_names_palettes hp hi (reference?_paletteItem n name)
      rw [hl.keyed hn]
      exact .inr ⟨name, hname, hl.palette_keyed hn (Node.palette?_eq_some_iff.2 hc)⟩
    · exact .inl (mem_fieldIds_inside hl hp hm)

/-- The items of a tree are readable where its fields are known and its palettes are stored. -/
theorem Covers.readable (h : Covers around columns t) (hl : t.Linked fun _ => False)
    (hp : t.Holds label Node.Plain) (ht : t.tabs ≠ []) (hnum : Unnumbered t) :
    Readable around columns t.items where
  plain := hp.plain_items
  regular := regular_items h hl hp
  starts := startsWithTab_items hl ht
  nodup := (h.ids_sublist hl hp).nodup hl.nodup_walk
  numbers id hm k hk := by
    rintro rfl
    rcases h.mem_ids hl hp hm with hf | ⟨name, _, he⟩
    · exact hf (hnum k (tabCount_items hl hp ▸ hk))
    · exact toString_ne_paletteId k name he

theorem mem_itemsOf_palette (hl : t.Linked fun _ => False) {id : String}
    (hn : t.node? id = some n) (hc : n.content = .palette name) : paletteItem n name ∈ t.items := by
  obtain ⟨p, hp⟩ := Option.ne_none_iff_exists'.1 fun hp => by
    have hk := ((hl.rooted hn).1 hp).resolve_left not_false
    rw [Node.kind, hc] at hk
    cases hk
  obtain ⟨m, hm, hcan, hmem⟩ := hl.held hn hp
  have hmk : m.kind = .tab := by
    have hnk : n.kind = .palette := by rw [Node.kind, hc]; rfl
    rw [hnk] at hcan
    cases hk : m.kind <;> rw [hk] at hcan <;> first | rfl | cases hcan
  have htab : m ∈ t.tabNodes := List.mem_filterMap.2 ⟨p, hl.mem_tabs.2 ⟨not_false, m, hm, hmk⟩, hm⟩
  refine List.mem_flatMap.2 ⟨m, htab, List.mem_cons_of_mem _ (List.mem_filterMap.2 ⟨n, ?_, ?_⟩)⟩
  · rw [FormTree.childNodes, hl.keyed hm, hm]
    exact List.mem_filterMap.2 ⟨id, hmem, hn⟩
  · rw [itemInTab?, hc]

/-- Reading the items of a tree gives a tree with the same items, also inside its palettes. -/
theorem Covers.read {palettes : Palettes} {parent : Option (String → Option Fields)}
    (h : Covers ⟨palettes, parent⟩ columns t) (hl : t.Linked fun _ => False)
    (hp : t.Holds label Node.Plain) (ht : t.tabs ≠ []) (hnum : Unnumbered t) (tree : FormTree) :
    ∃ r : Reading, Layout.read ⟨t.layout.showItem, palettes⟩ tree columns parent =
        ⟨r.tree, columns, r.asked.reverse, none⟩ ∧
      r.Sound ⟨palettes, parent⟩ tree.defaultTabLabel ∧ r.columns = columns ∧
      r.tree.items = t.items ∧ ∀ id n name, t.node? id = some n → n.content = .palette name →
        r.tree.inside id = t.inside id := by
  obtain ⟨r, hr, hs⟩ := fill_readable (h.readable hl hp ht hnum) tree
  refine ⟨r, ?_, hs.toSound, hs.columns_eq, hs.items_eq, fun id n name hn hc => ?_⟩
  · rw [Layout.read, hp.parse_showItem, hr, ← hs.columns_eq]
  · have hid := hl.palette_keyed hn (Node.palette?_eq_some_iff.2 hc)
    have hshown : (name, t.inside id) ∈ t.items.flatMap (Surroundings.shown ⟨palettes, parent⟩) := by
      refine List.mem_flatMap.2 ⟨_, mem_itemsOf_palette hl hn hc, ?_⟩
      rw [Surroundings.shown_of_reference (reference?_paletteItem n name) (h.inside? hn hc)]
      exact List.mem_singleton_self _
    rw [hid]
    exact (hs.inside_eq hshown).trans (by rw [hid])

end Layout

end FormLayout
