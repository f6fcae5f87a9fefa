import FormLayout.Proofs.Layout.Filling
/-!
Layouts that name nothing twice and whose palettes are empty. Nothing is moved and nothing stands
inside a palette, so that the tree shows the items in the order they are written.
-/

namespace FormLayout
set_option autoImplicit true

namespace Placement

/-- Placements in the order of the form: after a first tab each one is a new tab, or goes to the
last tab there is. -/
inductive InOrder : List Placement → Prop where
  | first (s : Shown) : InOrder [⟨.form, s⟩]
  | tab (s : Shown) : InOrder ps → InOrder (ps ++ [⟨.form, s⟩])
  | last (s : Shown) : InOrder ps → InOrder (ps ++ [⟨.tab (tabs ps - 1), s⟩])

/-- Each tab with what it holds. -/
def rows (ps : List Placement) : List (List Shown) :=
  (under .form ps).mapIdx fun k tab => tab :: under (.tab k) ps

theorem length_under_form (ps : List Placement) : (under .form ps).length = tabs ps := by
  rw [under, List.length_map, tabs, List.countP_eq_length_filter]

namespace InOrder

theorem tabs_pos (h : InOrder ps) : 0 < tabs ps := by
  induction h with
  | first s => exact Nat.zero_lt_one
  | tab s _ ih | last s _ ih =>
    rw [tabs_concat]
    exact Nat.lt_of_lt_of_le ih (Nat.le_add_right _ _)

theorem exists_last_tab (h : InOrder ps) : ∃ front tab, under .form ps = front ++ [tab] := by
  rcases List.eq_nil_or_concat' (under .form ps) with hnil | hconcat
  · have hpos := h.tabs_pos
    rw [← length_under_form, hnil] at hpos
    cases hpos
  · exact hconcat

/-- Only the form and its tabs hold anything. -/
theorem under_eq_nil (h : InOrder ps) {x : Spot} (hform : x ≠ .form)
    (htab : ∀ k < tabs ps, x ≠ .tab k) : under x ps = [] := by
  induction h with
  | first s => rw [under_singleton, if_neg hform]
  | tab s _ ih =>
    rw [tabs_concat, if_pos rfl] at htab
    rw [under_append, ih fun k hk => htab k (Nat.lt_succ_of_lt hk), under_singleton, if_neg hform]
    rfl
  | last s h ih =>
    rw [tabs_concat, if_neg (by simp), Nat.add_zero] at htab
    rw [under_append, ih htab, under_singleton,
      if_neg (htab _ (Nat.sub_lt h.tabs_pos Nat.zero_lt_one))]
    rfl

theorem inside_eq_nil (h : InOrder ps) (s : Shown) : inside ps s = [] := by
  cases s with
  | palette name => exact h.under_eq_nil (by simp) (by simp)
  | tab => rfl
  | field => rfl
  | lineBreak => rfl

theorem flatten_form_eq_rows (h : InOrder ps) : (form ps).flatten = (rows ps).flatten := by
  have hrow (l : List Shown) : (l.flatMap fun s => s :: inside ps s) = l := by
    simp [h.inside_eq_nil]
  simp only [Form.flatten, form, rows, List.mapIdx_eq_zipIdx_map, List.flatMap_map, hrow]
  rw [List.flatMap_def]

/-- A new tab is a row of its own. -/
theorem rows_tab (h : InOrder ps) (s : Shown) : rows (ps ++ [⟨.form, s⟩]) = rows ps ++ [[s]] := by
  have hunder (k : Nat) : under (.tab k) (ps ++ [⟨.form, s⟩]) = under (.tab k) ps := by
    rw [under_append, under_singleton, if_neg (by simp), List.append_nil]
  have hnew : under (.tab (tabs ps)) ps = [] :=
    h.under_eq_nil (by simp) fun k hk he => absurd (Spot.tab.inj he) (Nat.ne_of_gt hk)
  simp only [rows, hunder]
  rw [under_append, under_singleton, if_pos rfl, List.mapIdx_concat, length_under_form, hnew]

/-- Anything else goes to the end of the last row. -/
theorem rows_last (h : InOrder ps) (s : Shown) : ∃ front row, rows ps = front ++ [row] ∧
    rows (ps ++ [⟨.tab (tabs ps - 1), s⟩]) = front ++ [row ++ [s]] := by
  obtain ⟨front, tab, hform⟩ := h.exists_last_tab
  have hlen : tabs ps - 1 = front.length := by
    rw [← length_under_form, hform, List.length_append, List.length_singleton, Nat.add_sub_cancel]
  have hfront : (front.mapIdx fun k tab => tab :: under (.tab k)
      (ps ++ [⟨.tab (tabs ps - 1), s⟩])) = front.mapIdx fun k tab => tab :: under (.tab k) ps := by
    rw [List.mapIdx_eq_mapIdx_iff]
    intro k hk
    rw [under_append, under_singleton, if_neg, List.append_nil]
    intro he
    exact Nat.ne_of_lt hk ((Spot.tab.inj he).trans hlen)
  have hlast : under (.tab front.length) (ps ++ [⟨.tab (tabs ps - 1), s⟩]) =
      under (.tab front.length) ps ++ [s] := by
    rw [under_append, under_singleton, if_pos (congrArg Spot.tab hlen.symm)]
  refine ⟨_, _, by rw [rows, hform, List.mapIdx_concat], ?_⟩
  rw [rows, under_append, under_singleton, if_neg (by simp), List.append_nil, hform,
    List.mapIdx_concat, hfront, hlast, List.cons_append]

/-- The form shows such placements one after another. -/
theorem flatten_form (h : InOrder ps) : (form ps).flatten = ps.map shown := by
  rw [h.flatten_form_eq_rows]
  induction h with
  | first s => rfl
  | tab s h ih => rw [h.rows_tab, List.flatten_concat, ih, List.map_append, List.map_singleton]
  | last s h ih =>
    obtain ⟨front, row, hrows, hlast⟩ := h.rows_last s
    rw [hrows, List.flatten_concat] at ih
    rw [hlast, List.flatten_concat, ← List.append_assoc, ih, List.map_append, List.map_singleton]

end InOrder

/-- Without a field that is placed twice every placement stands. -/
theorem standing_eq_self (h : ((ps.map shown).filterMap Shown.fieldId?).Nodup) :
    standing ps = ps := by
  induction ps with
  | nil => rfl
  | cons p ps ih =>
    have hnone : ¬ (ps.any fun q => p.shown.sameField q.shown) = true := by
      intro hany
      obtain ⟨q, hq, hsame⟩ := List.any_eq_true.1 hany
      obtain ⟨id, hp, hid⟩ := Shown.sameField_iff.1 hsame
      rw [List.map_cons, List.filterMap_cons_some hp, List.nodup_cons] at h
      exact h.1 (List.mem_filterMap.2 ⟨q.shown, List.mem_map_of_mem hq, hid⟩)
    rw [standing, if_neg hnone, ih (h.sublist ((List.sublist_cons_self _ _).filterMap _))]

end Placement

/-- Where a node goes that is taken in after some placements, outside of palettes. -/
def Placement.next (ps : List Placement) (s : Shown) : Placement :=
  ⟨if s.kind = .tab then .form else .tab (tabs ps - 1), s⟩

theorem Placement.InOrder.next (h : InOrder ps) (s : Shown) : InOrder (ps ++ [next ps s]) := by
  rw [Placement.next]
  split
  · exact h.tab s
  · exact h.last s

namespace Item

/-- The id of a field, unless it is empty. -/
def fieldId? (item : Item) : Option String :=
  match item.kind with
  | .field id => if id = "" then none else some id
  | .special _ => none

/-- The node that an item stands for. A field needs an id for this, and a palette a name. -/
def shown? (item : Item) : Option Shown :=
  match item.kind with
  | .special .tab => some (.tab (item.drop 1))
  | .special .palette => item.reference?.map fun name => .palette name (item.drop 1).dropLast
  | .special .lineBreak => some .lineBreak
  | .special (.unknown _) => none
  | .field id => if id = "" then none else some (.field id (item.drop 1))

theorem fieldId?_eq_some_iff {item : Item} {id : String} :
    item.fieldId? = some id ↔ item.kind = .field id ∧ id ≠ "" := by
  rw [fieldId?]
  cases item.kind with
  | field x =>
    dsimp only
    split <;> grind
  | special token => simp

theorem fieldId?_shown? (item : Item) : item.shown?.bind Shown.fieldId? = item.fieldId? := by
  rw [shown?, fieldId?]
  cases item.kind with
  | field id =>
    dsimp only
    split <;> rfl
  | special token =>
    cases token with
    | palette => cases item.reference? <;> rfl
    | tab | lineBreak | unknown => rfl

end Item

namespace Layout

/-- Items that name no field and no palette twice, with fields that are stored and named like no
other node, and palettes that are stored without items. -/
structure Standalone (palettes : Palettes) (columns : Columns) (items : List Item) : Prop where
  faultless : ∀ item ∈ items, item.fault? = none
  fieldsOnce : (items.filterMap Item.fieldId?).Nodup
  palettesOnce : (items.filterMap Item.reference?).Nodup
  own : ∀ id ∈ items.filterMap Item.fieldId?, ':' ∉ id.toList ∧ ∀ n : Nat, id ≠ toString n
  stored : ∀ id ∈ items.filterMap Item.fieldId?, columns.has id = true
  empty : ∀ name ∈ items.filterMap Item.reference?,
    palettes.has name = true ∧ itemsOf palettes name = []

theorem Standalone.tail {palettes : Palettes} {columns : Columns}
    (h : Standalone palettes columns (item :: rest)) : Standalone palettes columns rest := by
  have hsub {f : Item → Option String} :
      (rest.filterMap f).Sublist ((item :: rest).filterMap f) :=
    (List.sublist_cons_self item rest).filterMap f
  constructor
  case faultless => exact fun i hi => h.faultless i (List.mem_cons_of_mem item hi)
  case fieldsOnce => exact h.fieldsOnce.sublist hsub
  case palettesOnce => exact h.palettesOnce.sublist hsub
  case own => exact fun id hid => h.own id (hsub.subset hid)
  case stored => exact fun id hid => h.stored id (hsub.subset hid)
  case empty => exact fun name hname => h.empty name (hsub.subset hname)

variable {around : Surroundings} {columns : Columns} {seen : List String}

/-- An item places what it stands for and nothing else. -/
theorem foldl_place_item {item : Item}
    (hfield : ∀ id, item.fieldId? = some id → columns.has id = true)
    (hpalette : ∀ name, item.reference? = some name →
      (around.palettes.has name = true ∧ itemsOf around.palettes name = []) ∧ name ∉ seen)
    (placed : List String) (ps : List Placement) :
    (kept (around.knows columns) placed (occurrencesOf around.palettes seen item)).foldl place ps =
      ps ++ (item.shown?.map (Placement.next ps)).toList := by
  have hone (hk : item.kind ≠ .special .palette) :
      occurrencesOf around.palettes seen item = [⟨none, item⟩] := if_neg hk
  rw [Item.shown?]
  cases hk : item.kind with
  | field id =>
    rw [hone (by simp [hk]), kept_singleton, Occurrence.counts, hk]
    by_cases hid : id = ""
    · simp [hid]
    · have hknown : around.knows columns id = true := by
        rw [Surroundings.knows, hfield id (Item.fieldId?_eq_some_iff.2 ⟨hk, hid⟩), Bool.true_or]
      rw [if_pos (by simp [hid, hknown])]
      dsimp only
      rw [if_neg hid]
      exact place_field (o := ⟨none, item⟩) hk ps
  | special token =>
    cases token with
    | tab =>
      rw [hone (by simp [hk]), kept_cons_of_special (o := ⟨none, item⟩) hk]
      exact place_tab (o := ⟨none, item⟩) hk ps
    | palette =>
      rw [occurrencesOf, if_pos hk, declared?]
      cases href : item.reference? with
      | none => exact (List.append_nil ps).symm
      | some name =>
        obtain ⟨⟨hhas, hitems⟩, hnew⟩ := hpalette name href
        rw [Option.filter_some, if_pos (by simp [hhas, hnew])]
        dsimp only
        rw [hitems, kept_cons_of_special (o := ⟨none, item⟩) hk]
        exact place_palette (o := ⟨none, item⟩) href ps
    | lineBreak =>
      rw [hone (by simp [hk]), kept_cons_of_special (o := ⟨none, item⟩) hk]
      exact place_lineBreak (o := ⟨none, item⟩) hk ps
    | unknown token =>
      rw [hone (by simp [hk]), kept_cons_of_special (o := ⟨none, item⟩) hk, kept, List.foldl_cons,
        List.foldl_nil, place, Occurrence.placement?, hk]
      rfl

/-- Items place what they stand for, one after another. -/
theorem inOrder_foldl_place (h : Placement.InOrder ps) {items : List Item}
    (hs : Standalone around.palettes columns items)
    (hseen : ∀ name ∈ items.filterMap Item.reference?, name ∉ seen) (placed : List String) :
    let qs := (kept (around.knows columns) placed
      (occurrences around.palettes seen items)).foldl place ps
    Placement.InOrder qs ∧
      qs.map Placement.shown = ps.map Placement.shown ++ items.filterMap Item.shown? := by
  dsimp only
  induction items generalizing ps seen placed with
  | nil => exact ⟨h, (List.append_nil _).symm⟩
  | cons item rest ih =>
    have hfield (id : String) (hid : item.fieldId? = some id) : columns.has id = true :=
      hs.stored id (List.mem_filterMap.2 ⟨item, List.mem_cons_self, hid⟩)
    have hpalette (name : String) (href : item.reference? = some name) :
        (around.palettes.has name = true ∧ itemsOf around.palettes name = []) ∧ name ∉ seen := by
      have hm := List.mem_filterMap.2 ⟨item, List.mem_cons_self (l := rest), href⟩
      exact ⟨hs.empty name hm, hseen name hm⟩
    have hrest : ∀ name ∈ rest.filterMap Item.reference?,
        name ∉ (declared? around.palettes seen item).toList ++ seen := by
      intro name hname hm
      rcases List.mem_append.1 hm with hm | hm
      · have href := (Option.filter_eq_some_iff.1 (Option.mem_toList.1 hm)).1
        have hnodup := hs.palettesOnce
        rw [List.filterMap_cons_some href] at hnodup
        exact (List.nodup_cons.1 hnodup).1 hname
      · exact hseen name (((List.sublist_cons_self item rest).filterMap _).subset hname) hm
    rw [occurrences, kept_append, List.foldl_append, foldl_place_item hfield hpalette]
    cases hshown : item.shown? with
    | none =>
      rw [List.filterMap_cons_none hshown, Option.map_none, Option.toList_none, List.append_nil]
      exact ih h hs.tail hrest _
    | some s =>
      rw [List.filterMap_cons_some hshown, Option.map_some, Option.toList_some]
      obtain ⟨hin, hmap⟩ := ih (h.next s) hs.tail hrest _
      refine ⟨hin, hmap.trans ?_⟩
      rw [List.map_append, List.append_assoc]
      rfl

/-- The tab in front, unless the first item opens one. -/
def tabInFront (label : String) (items : List Item) : List Shown :=
  if startsWithTab items then [] else [.tab [label]]

theorem inOrder_placements {items : List Item} (hs : Standalone around.palettes columns items)
    (label : String) : Placement.InOrder (placements label around columns items) ∧
      (placements label around columns items).map Placement.shown =
        tabInFront label items ++ items.filterMap Item.shown? := by
  rw [placements, tabInFront]
  by_cases hfirst : startsWithTab items = true
  · rw [if_pos hfirst, if_pos hfirst, List.nil_append]
    cases items with
    | nil => cases hfirst
    | cons item rest =>
      have hk : item.kind = .special .tab := of_decide_eq_true hfirst
      have hshown : item.shown? = some (.tab (item.drop 1)) := by rw [Item.shown?, hk]
      rw [occurrences_cons (by simp [hk]), kept_cons_of_special (o := ⟨none, item⟩) hk,
        List.foldl_cons, place_tab (o := ⟨none, item⟩) hk, List.filterMap_cons_some hshown]
      exact inOrder_foldl_place (.first _) hs.tail (by simp) []
  · rw [if_neg hfirst, if_neg hfirst]
    exact inOrder_foldl_place (.first _) hs (by simp) []

theorem flatten_form {items : List Item} (hs : Standalone around.palettes columns items)
    (label : String) : (form label around columns items).flatten =
      tabInFront label items ++ items.filterMap Item.shown? := by
  obtain ⟨hin, hshown⟩ := inOrder_placements hs label
  have honce : (((placements label around columns items).map Placement.shown).filterMap
      Shown.fieldId?).Nodup := by
    have hfront : (tabInFront label items).filterMap Shown.fieldId? = [] := by
      rw [tabInFront]
      split <;> rfl
    rw [hshown, List.filterMap_append, hfront, List.nil_append, List.filterMap_filterMap]
    simpa only [Item.fieldId?_shown?] using hs.fieldsOnce
  rw [form, Placement.standing_eq_self honce, hin.flatten_form, hshown]

namespace Standalone

variable {items : List Item} {item : Item}

theorem itemsOf_eq_nil (hs : Standalone around.palettes columns items) (hi : item ∈ items)
    (href : item.reference? = some name) : itemsOf around.palettes name = [] :=
  (hs.empty name (List.mem_filterMap.2 ⟨item, hi, href⟩)).2

theorem faultsOf_eq_nil (hs : Standalone around.palettes columns items) (hi : item ∈ items) :
    faultsOf around.palettes item = [] := by
  rw [faultsOf]
  cases href : item.reference? with
  | none =>
    dsimp only
    rw [hs.faultless item hi, Option.toList_none]
  | some name =>
    dsimp only
    rw [faultsInside, hs.itemsOf_eq_nil hi href, List.filterMap_nil]

theorem ownId (hs : Standalone around.palettes columns items) (tabs : Nat) (hi : item ∈ items)
    {id : String} (hid : id ∈ around.fieldsOf columns item) : OwnId tabs id := by
  have htoken := Surroundings.ofPart?_of_mem_fieldsOf hid
  rw [Surroundings.fieldsOf] at hid
  split at hid
  · next name href =>
    rw [hs.itemsOf_eq_nil hi href] at hid
    cases hid
  · have hk := Item.mem_fieldIds.1 (List.mem_of_mem_filter hid)
    by_cases hempty : id = ""
    · subst hempty
      exact ⟨by simp, fun _ he => toString_ne_empty _ he.symm, htoken⟩
    · obtain ⟨hcolon, htab⟩ := hs.own id
        (List.mem_filterMap.2 ⟨item, hi, Item.fieldId?_eq_some_iff.2 ⟨hk, hempty⟩⟩)
      exact ⟨hcolon, fun {k} _ => htab k, htoken⟩

theorem exists_fill (hs : Standalone around.palettes columns items) (tree : FormTree) :
    ∃ r, fill around items ⟨tree, columns, none, []⟩ = .ok () r ∧ r.tree.walk.map Node.shown =
      tabInFront tree.defaultTabLabel items ++ items.filterMap Item.shown? := by
  have hfaults : items.flatMap (faultsOf around.palettes) = [] :=
    List.flatMap_eq_nil_iff.2 fun item hi => hs.faultsOf_eq_nil hi
  have hown (id : String) (hid : ∃ item ∈ items, id ∈ around.fieldsOf columns item) :
      OwnId (tabsOf items) id := by
    obtain ⟨item, hi, hid⟩ := hid
    exact hs.ownId _ hi hid
  have hmeets : (fill around items).Meets ⟨tree, columns, none, []⟩ [] fun _ => True := by
    rw [← hfaults]
    exact Step.meets_fill hown rfl rfl rfl fun item hi id hid => ⟨item, hi, hid⟩
  obtain ⟨_, r, hr, _⟩ := hmeets.exists_ok
  obtain ⟨seen, placed, hlaid⟩ := (Step.laid_fill rfl rfl items).ok hr
  refine ⟨r, hr, ?_⟩
  rw [← hlaid.linked.flatten_form, hlaid.form_eq]
  exact flatten_form hs tree.defaultTabLabel

end Standalone

/-- Such a layout is read without a failure, and the tree shows the items in their order. -/
theorem read_standalone (layout : Layout) (tree : FormTree) (columns : Columns)
    (parent : Option (String → Option Fields))
    (hs : Standalone layout.palettes columns (ShowItem.parse layout.showItem)) :
    let items := ShowItem.parse layout.showItem
    let filled := layout.read tree columns parent
    filled.failure = none ∧ filled.tree.walk.map Node.shown =
      tabInFront tree.defaultTabLabel items ++ items.filterMap Item.shown? := by
  have hs : Standalone (Surroundings.mk layout.palettes parent).palettes columns _ := hs
  obtain ⟨r, hr, hwalk⟩ := hs.exists_fill tree
  rw [read, hr]
  exact ⟨rfl, hwalk⟩

end Layout

end FormLayout
