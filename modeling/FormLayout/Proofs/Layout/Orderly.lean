import FormLayout.Proofs.Form.Kinds
import FormLayout.Proofs.Layout.Replay
/-!
The ids that a reading gives out by the kinds they are given out for. No id is given out for two
kinds unless a field is named like one of the tabs or has a colon in its id.
-/

namespace FormLayout
set_option autoImplicit true

/-- The ids of a tree by kind, as a reading gives them out. -/
inductive Named (fields : String → Prop) (tabs : Nat) : String → NodeKind → Prop where
  | tab {k : Nat} : k < tabs → Named fields tabs (toString k) .tab
  | palette (name : String) : Named fields tabs (paletteId name) .palette
  | field {id : String} : fields id → Named fields tabs id .field
  | lineBreak (k : Nat) : Named fields tabs (lineBreakId k) .lineBreak

/-- An id of a field that is neither made up nor the number of a tab. -/
structure OwnId (tabs : Nat) (id : String) : Prop where
  noColon : ':' ∉ id.toList
  noTab {k : Nat} : k < tabs → id ≠ toString k
  noToken : SpecialToken.ofPart? id = none

namespace OwnId

theorem ne_paletteId {id : String} (h : OwnId tabs id) (name : String) : id ≠ paletteId name := by
  rintro rfl
  apply h.noColon
  rw [paletteId, String.toList_append]
  exact List.mem_append_left _ (by decide +kernel)

theorem ne_lineBreakId {id : String} (h : OwnId tabs id) (k : Nat) : id ≠ lineBreakId k := by
  rintro rfl
  exact ofPart?_lineBreakId k h.noToken

end OwnId

/-- One id stands for one kind only. -/
theorem Named.unique {fields : String → Prop} (hf : ∀ id, fields id → OwnId tabs id) {id : String}
    (h : Named fields tabs id kind) (h' : Named fields tabs id kind') : kind = kind' := by
  cases h with
  | @tab k hk =>
    generalize he : toString k = id at h'
    cases h' with
    | tab => rfl
    | palette name => exact absurd he (toString_ne_paletteId k name)
    | field hid => exact absurd he.symm ((hf id hid).noTab hk)
    | lineBreak j => exact absurd he (toString_ne_lineBreakId k j)
  | palette name =>
    generalize he : paletteId name = id at h'
    cases h' with
    | @tab j _ => exact absurd he.symm (toString_ne_paletteId j name)
    | palette => rfl
    | field hid => exact absurd he.symm ((hf id hid).ne_paletteId name)
    | lineBreak j => exact absurd he.symm (lineBreakId_ne_paletteId j name)
  | field hid =>
    cases h' with
    | tab hj => exact absurd rfl ((hf _ hid).noTab hj)
    | palette name => exact absurd rfl ((hf _ hid).ne_paletteId name)
    | field => rfl
    | lineBreak j => exact absurd rfl ((hf _ hid).ne_lineBreakId j)
  | lineBreak k =>
    generalize he : lineBreakId k = id at h'
    cases h' with
    | @tab j _ => exact absurd he.symm (toString_ne_lineBreakId j k)
    | palette name => exact absurd he (lineBreakId_ne_paletteId k name)
    | field hid => exact absurd he.symm ((hf id hid).ne_lineBreakId k)
    | lineBreak => rfl

namespace Layout

namespace Reading

/-- A reading with room for some more tabs and the given palettes, where every id stands for the kind
that it is given out for, and whose columns know no more than those at the start and the fields
brought in. -/
structure Orderly (around : Surroundings) (fields : String → Prop) (tabs : Nat) (columns : Columns)
    (palettes : String → Prop) (room : Nat) (r : Reading) : Prop where
  linked : r.tree.Linked fun _ => False
  numbered : r.tree.tabs = (List.range r.tree.tabs.length).map toString
  named {id : String} {kind : NodeKind} : r.tree.kind? id = some kind → Named fields tabs id kind
  palette_iff {name : String} : r.tree.kind? (paletteId name) = some .palette ↔ palettes name
  opened {id : String} : r.tab = some id → r.tree.kind? id = some .tab
  known {id : String} : (around.config? r.columns id).isSome = true →
    (around.config? columns id).isSome = true ∨ fields id
  room_eq : r.tree.tabs.length + room = tabs

/-- An orderly reading with a tab. -/
structure Settled (around : Surroundings) (fields : String → Prop) (tabs : Nat) (columns : Columns)
    (palettes : String → Prop) (room : Nat) (r : Reading) : Prop
    extends Orderly around fields tabs columns palettes room r where
  tabs_ne_nil : r.tree.tabs ≠ []

variable {around : Surroundings} {fields : String → Prop} {tabs : Nat} {columns : Columns}
  {palettes palettes' : String → Prop} {room : Nat} {r : Reading}

/-- One more node, or none, and no other change of the kinds, in a tree with numbered tabs. -/
theorem Orderly.grow (h : r.Orderly around fields tabs columns palettes room)
    (hf : ∀ id, fields id → OwnId tabs id) {tree : FormTree} (hl : tree.Linked fun _ => False)
    {id : String} (hnew : Named fields tabs id kind)
    (hk : ∀ x, tree.kind? x = if x = id then some kind else r.tree.kind? x)
    (hp : ∀ name, palettes' name ↔ palettes name ∨ kind = .palette ∧ paletteId name = id)
    (hnum : tree.tabs = (List.range tree.tabs.length).map toString) (hne : tree.tabs ≠ [])
    (hroom : tree.tabs.length + room' = tabs) {tab : Option String}
    (htab : tab = r.tab ∨ tab = some id ∧ kind = .tab) :
    { r with tree, tab }.Settled around fields tabs columns palettes' room' := by
  have hkeep {x k} (hx : r.tree.kind? x = some k) : tree.kind? x = some k := by
    rw [hk]
    split
    · next he =>
      rw [(h.named hx).unique hf (he ▸ hnew)]
    · exact hx
  constructor
  case tabs_ne_nil => exact hne
  constructor
  case linked => exact hl
  case numbered => exact hnum
  case named =>
    intro x k hx
    have hx : tree.kind? x = some k := hx
    rw [hk] at hx
    split at hx
    · next he =>
      cases hx
      exact he ▸ hnew
    · exact h.named hx
  case palette_iff =>
    intro name
    rw [hp, ← h.palette_iff]
    constructor
    · intro hx
      have hx : tree.kind? (paletteId name) = some .palette := hx
      rw [hk] at hx
      split at hx
      · next he =>
        cases hx
        exact .inr ⟨rfl, he⟩
      · exact .inl hx
    · intro hx
      rcases hx with hx | ⟨rfl, he⟩
      · exact hkeep hx
      · exact (hk _).trans (if_pos he)
  case opened =>
    intro x hx
    have hx : tab = some x := hx
    rcases htab with he | ⟨he, rfl⟩
    · exact hkeep (h.opened (he.symm.trans hx))
    · cases he.symm.trans hx
      exact (hk _).trans (if_pos rfl)
  case known => exact h.known
  case room_eq => exact hroom

theorem Settled.grow (h : r.Settled around fields tabs columns palettes room)
    (hf : ∀ id, fields id → OwnId tabs id) {tree : FormTree} (hl : tree.Linked fun _ => False)
    (ht : tree.tabs = r.tree.tabs) {id : String} (hnew : Named fields tabs id kind)
    (hk : ∀ x, tree.kind? x = if x = id then some kind else r.tree.kind? x)
    (hp : ∀ name, palettes' name ↔ palettes name ∨ kind = .palette ∧ paletteId name = id) :
    { r with tree }.Settled around fields tabs columns palettes' room := by
  apply h.toOrderly.grow hf hl hnew hk hp
  · rw [ht]
    exact h.numbered
  · rw [ht]
    exact h.tabs_ne_nil
  · rw [ht]
    exact h.room_eq
  · exact .inl rfl

theorem Settled.ask (h : r.Settled around fields tabs columns palettes room) (id : String) :
    (r.ask around id).Settled around fields tabs columns palettes room := by
  rw [Reading.ask]
  split
  · exact ⟨⟨h.linked, h.numbered, h.named, h.palette_iff, h.opened, h.known, h.room_eq⟩,
      h.tabs_ne_nil⟩
  · exact h

/-- An empty configuration of a field that is brought in adds nothing else to what is known. -/
theorem Settled.synthesize (h : r.Settled around fields tabs columns palettes room) {id : String}
    (hid : fields id) :
    { r with columns := r.columns.put id [] }.Settled around fields tabs columns palettes room := by
  have hknown {x} (hx : (around.config? (r.columns.put id []) x).isSome = true) :
      (around.config? columns x).isSome = true ∨ fields x := by
    by_cases he : x = id
    · exact .inr (he ▸ hid)
    · apply h.known
      simpa only [Surroundings.config?, Entries.get?_put_of_ne _ _ he] using hx
  exact ⟨⟨h.linked, h.numbered, h.named, h.palette_iff, h.opened, hknown, h.room_eq⟩,
    h.tabs_ne_nil⟩

/-- Everything but a tab may go to the place where the reading is. -/
theorem Orderly.takes_position (h : r.Orderly around fields tabs columns palettes room)
    (hk : kind ≠ .tab) : r.tree.Takes kind r.position := by
  rw [position]
  cases ht : r.tab with
  | none => exact .default
  | some tab => exact .bottom (h.opened ht) (by simpa [NodeKind.canContain] using hk)

end Reading

end Layout

end FormLayout
