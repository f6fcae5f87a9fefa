import FormLayout.Proofs.Layout.Occurrences
/-!
Readings whose trees show given placements. One more placement appends to one list of the tree, and
takes a field that was placed before out of its list.
-/

namespace FormLayout
set_option autoImplicit true

theorem mapIdx_filterMap_range (f : Nat → Option α) (g : Nat → α → β)
    (h : ∀ k < n, (f k).isSome = true) : ((List.range n).filterMap f).mapIdx g =
      (List.range n).filterMap fun k => (f k).map (g k) := by
  induction n with
  | zero => rfl
  | succ n ih =>
    obtain ⟨a, ha⟩ := Option.isSome_iff_exists.1 (h n (Nat.lt_succ_self n))
    have hlen : ((List.range n).filterMap f).length = n := by
      rw [List.length_filterMap_eq_countP, List.countP_eq_length.2, List.length_range]
      exact fun k hk => h k (Nat.lt_succ_of_lt (List.mem_range.1 hk))
    rw [List.range_succ, List.filterMap_append, List.filterMap_append, List.mapIdx_append, hlen,
      ih fun k hk => h k (Nat.lt_succ_of_lt hk)]
    simp [ha]

/-- The container that stands for a spot in a tree. -/
def Spot.id? : Spot → Option String
  | .form => none
  | .tab k => some (toString k)
  | .palette name => some (paletteId name)

theorem Spot.id?_inj {a b : Spot} : a.id? = b.id? ↔ a = b := by
  constructor
  · intro h
    cases a with
    | form => cases b <;> first | rfl | cases h
    | tab k =>
      cases b with
      | form => cases h
      | tab j => rw [toString_nat_injective (Option.some.inj h)]
      | palette name => exact absurd (Option.some.inj h) (toString_ne_paletteId k name)
    | palette name =>
      cases b with
      | form => cases h
      | tab j => exact absurd (Option.some.inj h).symm (toString_ne_paletteId j name)
      | palette other => rw [paletteId_injective (Option.some.inj h)]
  · exact congrArg id?

/-- A position stands for the end of a spot, and nodes of a kind may stand there. -/
def FormTree.Receives (t : FormTree) (kind : NodeKind) (p : Position) (spot : Spot) : Prop :=
  ∃ target k, spot.id? = some target ∧ t.EndsIn p target ∧ t.kind? target = some k ∧
    k.canContain kind = true

namespace Layout

theorem Surroundings.knows_iff (around : Surroundings) (columns : Columns) (id : String) :
    around.knows columns id = true ↔ (around.config? columns id).isSome = true := by
  rw [knows, config?, Bool.or_eq_true, Entries.has]
  cases around.parent with
  | none => simp
  | some lookup =>
    rw [Option.bind_some]
    dsimp only
    cases lookup id <;> cases columns.get? id <;> simp

theorem Surroundings.isSome_config?_put (around : Surroundings) (columns : Columns)
    (id x : String) : (around.config? (columns.put id []) x).isSome = true ↔
      (around.config? columns x).isSome = true ∨ x = id := by
  rw [← knows_iff, ← knows_iff, knows, knows, Bool.or_eq_true, Bool.or_eq_true, Entries.has,
    Entries.has, Entries.get?_put]
  by_cases hx : x = id <;> simp [hx]

namespace Reading

/-- A reading whose tree shows some placements, with the palettes that were seen. Besides the fields
known at the start it knows those that palettes placed, and the open tab is the last one. -/
structure Laid (around : Surroundings) (columns : Columns) (seen placed : List String)
    (ps : List Placement) (r : Reading) : Prop where
  linked : r.tree.Linked fun _ => False
  numbered : r.tree.tabs = (List.range (Placement.tabs ps)).map toString
  shown (spot : Spot) : r.tree.shownIn spot.id? = Placement.under spot (Placement.standing ps)
  opened : r.tab = none ∨ r.tab = r.tree.tabs.getLast?
  palette_iff {name : String} : r.tree.kind? (paletteId name) = some .palette ↔ name ∈ seen
  known_iff {id : String} : id ≠ "" → ((around.config? r.columns id).isSome = true ↔
    around.knows columns id = true ∨ id ∈ placed)
  field_known {id : String} : r.tree.kind? id = some .field →
    (around.config? r.columns id).isSome = true

namespace Laid

variable {around : Surroundings} {columns : Columns} {seen placed : List String}
  {ps : List Placement} {r : Reading}

theorem kind?_tab (h : r.Laid around columns seen placed ps) {id : String} (hid : id ∈ r.tree.tabs) :
    r.tree.kind? id = some .tab := by
  obtain ⟨_, n, hn, hk⟩ := h.linked.mem_tabs.1 hid
  rw [FormTree.kind?_of_node? hn, hk]

theorem isSome_palette? (h : r.Laid around columns seen placed ps) (name : String) :
    (r.tree.palette? name).isSome = seen.contains name := by
  rw [Bool.eq_iff_iff, FormTree.palette?_isSome_iff, h.palette_iff, List.contains_iff_mem]

theorem getLast?_tabs (h : r.Laid around columns seen placed ps) (ht : 0 < Placement.tabs ps) :
    r.tree.tabs.getLast? = some (toString (Placement.tabs ps - 1)) := by
  obtain ⟨k, hk⟩ := Nat.exists_eq_add_of_lt ht
  rw [h.numbered, hk]
  simp [List.range_succ]

theorem tabs_ne_nil (h : r.Laid around columns seen placed ps) (ht : 0 < Placement.tabs ps) :
    r.tree.tabs ≠ [] := by
  intro hnil
  have hlast := h.getLast?_tabs ht
  rw [hnil] at hlast
  cases hlast

theorem receives_position (h : r.Laid around columns seen placed ps) (ht : 0 < Placement.tabs ps)
    (hk : kind ≠ .tab) : r.tree.Receives kind r.position (.tab (Placement.tabs ps - 1)) := by
  have hlast := h.getLast?_tabs ht
  have hends : r.tree.EndsIn r.position (toString (Placement.tabs ps - 1)) := by
    rw [position]
    rcases h.opened with hn | he
    · rw [hn]
      exact .default hlast
    · rw [he, hlast]
      exact .bottom
  exact ⟨_, .tab, rfl, hends, h.kind?_tab (List.mem_of_getLast? hlast),
    by simpa [NodeKind.canContain] using hk⟩

theorem receives_palette (h : r.Laid around columns seen placed ps) (hn : name ∈ seen)
    (hk : NodeKind.palette.canContain kind = true) :
    r.tree.Receives kind (.bottom (paletteId name)) (.palette name) :=
  ⟨_, .palette, rfl, .bottom, h.palette_iff.2 hn, hk⟩

/-- One more placement. A node that was there under the same id was the same field. -/
theorem puts (h : r.Laid around columns seen placed ps) {tree : FormTree}
    (hl : tree.Linked fun _ => False) {id : String} (spot : Spot) {s : Shown}
    (hput : r.tree.Puts tree id spot.id? s)
    (hid : ∀ q, r.tree.shown? id = some q → q.sameField s = true)
    (hfield : ∀ x, s.fieldId? = some x → x = id ∧ (around.config? r.columns id).isSome = true)
    (hpalette : ∀ name, s.palette? = some name → id = paletteId name)
    (htab : spot = .form → id = toString (Placement.tabs ps)) {tab : Option String}
    (hopen : tab = none ∨ tab = some id ∧ spot = .form ∨ tab = r.tab ∧ spot ≠ .form) :
    { r with tree, tab }.Laid around columns (s.palette?.toList ++ seen) placed
      (ps ++ [Placement.mk spot s]) := by
  have hspot : none = spot.id? ↔ spot = .form := eq_comm.trans (Spot.id?_inj (b := .form))
  have hkind (x : String) : tree.kind? x = if x = id then some s.kind else r.tree.kind? x := by
    rw [FormTree.kind?_eq_shown?, FormTree.kind?_eq_shown?, hput.shown?]
    split <;> rfl
  -- Only a field takes the place of a node.
  have hbefore {k} (hk : r.tree.kind? id = some k) : k = .field ∧ s.kind = .field := by
    rw [FormTree.kind?_eq_shown?] at hk
    obtain ⟨q, hq, rfl⟩ := Option.map_eq_some_iff.1 hk
    obtain ⟨x, hx, hs⟩ := Shown.sameField_iff.1 (hid q hq)
    exact ⟨Shown.fieldId?_isSome_iff.1 (Option.isSome_of_eq_some hx),
      Shown.fieldId?_isSome_iff.1 (Option.isSome_of_eq_some hs)⟩
  have htabs : tree.tabs = r.tree.tabs ++ if spot = .form then [id] else [] := by
    have hfresh : id ∉ r.tree.tabs := by
      intro hm
      cases (hbefore (h.kind?_tab hm)).1
    have hs := hput.siblings none
    simp only [hspot] at hs
    rw [← filter_ne_eq_self hfresh]
    exact hs
  constructor
  case linked => exact hl
  case numbered =>
    rw [htabs, h.numbered, Placement.tabs_concat]
    dsimp only
    split
    · next hform => rw [htab hform, List.range_succ, List.map_append, List.map_singleton]
    · rw [List.append_nil, Nat.add_zero]
  case shown =>
    intro x
    rw [hput.shownIn h.linked (fun y hy => (hfield y hy).1) hid, h.shown,
      Placement.under_standing_concat]
    simp only [Spot.id?_inj]
  case opened =>
    rcases hopen with hn | ⟨he, hform⟩ | ⟨he, hform⟩
    · exact .inl hn
    · apply Or.inr
      rw [htabs, if_pos hform, List.getLast?_concat]
      exact he
    · rw [htabs, if_neg hform, List.append_nil]
      dsimp only
      rw [he]
      exact h.opened
  case palette_iff =>
    intro name
    rw [hkind, List.mem_append, Option.mem_toList, ← h.palette_iff]
    split
    · next he =>
      constructor
      · intro hk
        obtain ⟨other, ho⟩ := Option.isSome_iff_exists.1
          (Shown.palette?_isSome_iff.2 (Option.some.inj hk))
        rw [paletteId_injective (he.trans (hpalette other ho))]
        exact .inl ho
      · rintro (hs | hk)
        · rw [Shown.palette?_isSome_iff.1 (Option.isSome_of_eq_some hs)]
        · rw [he] at hk
          cases (hbefore hk).1
    · next hne =>
      constructor
      · exact .inr
      · rintro (hs | hk)
        · exact absurd (hpalette name hs).symm hne
        · exact hk
  case known_iff => exact h.known_iff
  case field_known =>
    intro x hx
    rw [hkind] at hx
    split at hx
    · next he =>
      obtain ⟨y, hs⟩ := Option.isSome_iff_exists.1
        (Shown.fieldId?_isSome_iff.2 (Option.some.inj hx))
      exact he ▸ (hfield y hs).2
    · exact h.field_known hx

theorem puts_inside (h : r.Laid around columns seen placed ps) {tree : FormTree}
    (hl : tree.Linked fun _ => False) {id : String} {spot : Spot} (hspot : spot.id? = some target)
    (hput : r.tree.Puts tree id (some target) s)
    (hid : ∀ q, r.tree.shown? id = some q → q.sameField s = true)
    (hfield : ∀ x, s.fieldId? = some x → x = id ∧ (around.config? r.columns id).isSome = true)
    (hpalette : ∀ name, s.palette? = some name → id = paletteId name) :
    { r with tree }.Laid around columns (s.palette?.toList ++ seen) placed
      (ps ++ [Placement.mk spot s]) := by
  have hne : spot ≠ .form := by
    rintro rfl
    cases hspot
  exact h.puts hl spot (hspot ▸ hput) hid hfield hpalette (fun he => absurd he hne)
    (.inr (.inr ⟨rfl, hne⟩))

theorem ask (h : r.Laid around columns seen placed ps) (id : String) :
    (r.ask around id).Laid around columns seen placed ps := by
  rw [Reading.ask]
  split
  · exact ⟨h.linked, h.numbered, h.shown, h.opened, h.palette_iff, h.known_iff, h.field_known⟩
  · exact h

theorem remember (h : r.Laid around columns seen placed ps) {o : Occurrence} {id : String}
    (hk : o.item.kind = .field id)
    (hid : id ≠ "" → o.inside.isSome = true → (around.config? r.columns id).isSome = true) :
    r.Laid around columns seen (placed ++ o.fieldsInside) ps := by
  refine ⟨h.linked, h.numbered, h.shown, h.opened, h.palette_iff, fun {x} hx => ?_, h.field_known⟩
  rw [List.mem_append, ← or_assoc, ← h.known_iff hx, Occurrence.mem_fieldsInside hk]
  constructor
  · exact .inl
  · rintro (hknown | ⟨hin, rfl⟩)
    · exact hknown
    · exact hid hx hin

/-- A palette brings in a field. -/
theorem synthesize (h : r.Laid around columns seen placed ps) {o : Occurrence} {id : String}
    (hk : o.item.kind = .field id) (hin : o.inside.isSome = true) :
    { r with columns := r.columns.put id [] }.Laid around columns seen
      (placed ++ o.fieldsInside) ps := by
  constructor
  case linked => exact h.linked
  case numbered => exact h.numbered
  case shown => exact h.shown
  case opened => exact h.opened
  case palette_iff => exact h.palette_iff
  case known_iff =>
    intro x hx
    rw [around.isSome_config?_put, h.known_iff hx, List.mem_append, or_assoc,
      Occurrence.mem_fieldsInside hk, and_iff_right hin]
  case field_known =>
    intro x hx
    exact (around.isSome_config?_put r.columns id x).2 (.inl (h.field_known hx))

theorem map_shown_inside (h : r.Laid around columns seen placed ps) {c : Node}
    (hc : r.tree.node? x = some c) (hk : c.kind ≠ .tab) :
    (r.tree.childNodes c.id).map Node.shown =
      Placement.inside (Placement.standing ps) c.shown := by
  rw [h.linked.keyed hc, Node.shown]
  cases hcontent : c.content with
  | tab => exact absurd (congrArg Content.kind hcontent) hk
  | palette name =>
    have hid := h.linked.palette_keyed hc (Node.palette?_eq_some_iff.2 hcontent)
    rw [hid, FormTree.Linked.map_shown_childNodes]
    exact h.shown (.palette name)
  | field config =>
    rw [h.linked.childNodes_eq_nil hc (by rw [Node.kind, hcontent]; rfl)]
    rfl
  | lineBreak =>
    rw [h.linked.childNodes_eq_nil hc (by rw [Node.kind, hcontent]; rfl)]
    rfl

theorem form_eq (h : r.Laid around columns seen placed ps) :
    r.tree.form = Placement.form (Placement.standing ps) := by
  have htabs : Placement.under .form (Placement.standing ps) =
      (List.range (Placement.tabs ps)).filterMap fun k => r.tree.shown? (toString k) := by
    rw [← h.shown, Spot.id?, FormTree.shownIn, FormTree.siblings, h.numbered, List.filterMap_map]
    rfl
  have hnode (k : Nat) (hk : k < Placement.tabs ps) : ∃ n, r.tree.node? (toString k) = some n := by
    have hm : toString k ∈ r.tree.tabs := by
      rw [h.numbered]
      exact List.mem_map_of_mem (List.mem_range.2 hk)
    obtain ⟨_, n, hn, _⟩ := h.linked.mem_tabs.1 hm
    exact ⟨n, hn⟩
  have hshown (k : Nat) (hk : k < Placement.tabs ps) :
      (r.tree.shown? (toString k)).isSome = true := by
    obtain ⟨n, hn⟩ := hnode k hk
    rw [FormTree.shown?_of_node? hn]
    rfl
  rw [Placement.form, htabs, mapIdx_filterMap_range _ _ hshown, FormTree.form, FormTree.tabNodes,
    h.numbered, List.filterMap_map, List.map_filterMap]
  apply List.filterMap_congr
  intro k hk
  obtain ⟨n, hn⟩ := hnode k (List.mem_range.1 hk)
  rw [Function.comp_apply, FormTree.shown?, hn, Option.map_some, Option.map_some, Option.map_some,
    h.linked.keyed hn, ← h.shown, Spot.id?, ← FormTree.Linked.map_shown_childNodes, List.map_map]
  congr 2
  apply List.map_congr_left
  intro c hc
  obtain ⟨x, hx, hne⟩ := h.linked.ne_tab_of_mem_childNodes hc
  rw [Function.comp_apply, h.map_shown_inside hx hne]

end Laid

end Reading

end Layout

end FormLayout
