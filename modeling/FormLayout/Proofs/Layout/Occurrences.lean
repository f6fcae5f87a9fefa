import FormLayout.Proofs.Form.Shown
import FormLayout.Proofs.Layout.Faults
/-!
What a layout says about a form, read from left to right without a tree. Each palette stands where it
is first referred to, with its items after it. Items that refer to nothing are dropped, and a field
stands where it occurs last.
-/

namespace FormLayout
set_option autoImplicit true

/-- What holds nodes: the form its tabs, and the tabs by number and the palettes by name the rest. -/
inductive Spot where
  | form
  | tab (k : Nat)
  | palette (name : String)
  deriving DecidableEq, Repr

structure Placement where
  spot : Spot
  shown : Shown
  deriving DecidableEq, Repr

namespace Placement

/-- Of each field the last placement. -/
def standing : List Placement → List Placement
  | [] => []
  | p :: rest =>
    if rest.any fun q => p.shown.sameField q.shown then standing rest else p :: standing rest

/-- What is placed in one spot. -/
def under (spot : Spot) (ps : List Placement) : List Shown :=
  (ps.filter fun p => p.spot = spot).map shown

/-- The nodes inside a node of a tab. -/
def inside (ps : List Placement) : Shown → List Shown
  | .palette name _ => under (.palette name) ps
  | .tab _ | .field _ _ | .lineBreak => []

def form (ps : List Placement) : Form :=
  (under .form ps).mapIdx fun k tab => (tab, (under (.tab k) ps).map fun s => (s, inside ps s))

/-- The number of tabs. -/
def tabs (ps : List Placement) : Nat := ps.countP fun p => p.spot = .form

theorem standing_concat (ps : List Placement) (p : Placement) :
    standing (ps ++ [p]) = (standing ps).filter (fun q => !q.shown.sameField p.shown) ++ [p] := by
  induction ps with
  | nil => rfl
  | cons q ps ih =>
    rw [List.cons_append, standing, standing, List.any_append, ih]
    cases hq : q.shown.sameField p.shown <;>
      cases ha : ps.any fun r => q.shown.sameField r.shown <;> simp [hq]

theorem under_append (spot : Spot) (ps qs : List Placement) :
    under spot (ps ++ qs) = under spot ps ++ under spot qs := by
  rw [under, List.filter_append, List.map_append]
  rfl

theorem under_singleton (spot : Spot) (p : Placement) :
    under spot [p] = if spot = p.spot then [p.shown] else [] := by
  by_cases h : spot = p.spot
  · simp [under, h]
  · simp [under, h, Ne.symm h]

/-- A placement goes to the end of its spot, and the same field leaves the spot where it was. -/
theorem under_standing_concat (spot : Spot) (ps : List Placement) (p : Placement) :
    under spot (standing (ps ++ [p])) =
      (under spot (standing ps)).filter (fun s => !s.sameField p.shown) ++
        if spot = p.spot then [p.shown] else [] := by
  rw [standing_concat, under_append, under_singleton, under, under, List.filter_map,
    List.filter_filter, List.filter_filter]
  congr 2
  apply List.filter_congr
  intro q _
  exact Bool.and_comm _ _

theorem tabs_concat (ps : List Placement) (p : Placement) :
    tabs (ps ++ [p]) = tabs ps + if p.spot = .form then 1 else 0 := by
  rw [tabs, List.countP_append, List.countP_singleton]
  simp [tabs]

end Placement

namespace Layout

/-- An item where it stands: in the layout itself or inside a palette. -/
structure Occurrence where
  inside : Option String
  item : Item

/-- The stored palette that an item is the first one to refer to. -/
def declared? (palettes : Palettes) (seen : List String) (item : Item) : Option String :=
  item.reference?.filter fun name => palettes.has name && !seen.contains name

def occurrencesOf (palettes : Palettes) (seen : List String) (item : Item) : List Occurrence :=
  if item.kind = .special .palette then
    match declared? palettes seen item with
    | some name => ⟨none, item⟩ :: (itemsOf palettes name).map (⟨some name, ·⟩)
    | none => []
  else [⟨none, item⟩]

/-- The items with those of each palette after the first reference to it, and without any other
reference. -/
def occurrences (palettes : Palettes) : List String → List Item → List Occurrence
  | _, [] => []
  | seen, item :: rest => occurrencesOf palettes seen item ++
      occurrences palettes ((declared? palettes seen item).toList ++ seen) rest

/-- The fields of the palettes that the items of a layout refer to. -/
def paletteFields (layout : Layout) : List String :=
  ((ShowItem.parse layout.showItem).filterMap Item.reference?).flatMap fun name =>
    (itemsOf layout.palettes name).flatMap Item.fieldIds

/-- Whether a field is stored or known to the parent. -/
def Surroundings.knows (around : Surroundings) (columns : Columns) (id : String) : Bool :=
  columns.has id || (around.parent.bind (· id)).isSome

namespace Occurrence

/-- The field that an occurrence places inside a palette. -/
def fieldsInside (o : Occurrence) : List String := if o.inside.isSome then o.item.fieldIds else []

/-- Whether an occurrence is not dropped: a field needs an id, and outside of palettes it must be
known, or placed by a palette before. -/
def counts (known : String → Bool) (placed : List String) (o : Occurrence) : Bool :=
  match o.item.kind with
  | .field id => id ≠ "" && (o.inside.isSome || known id || placed.contains id)
  | .special _ => true

/-- The last of some tabs, or the palette around an occurrence. -/
def spot (tabs : Nat) (o : Occurrence) : Spot :=
  match o.inside with
  | some name => .palette name
  | none => .tab (tabs - 1)

/-- Where an occurrence puts what, if some tabs are there already. -/
def placement? (tabs : Nat) (o : Occurrence) : Option Placement :=
  match o.item.kind with
  | .special .tab => some ⟨.form, .tab (o.item.drop 1)⟩
  | .special .palette =>
    o.item.reference?.map fun name => ⟨o.spot tabs, .palette name (o.item.drop 1).dropLast⟩
  | .special .lineBreak => some ⟨o.spot tabs, .lineBreak⟩
  | .special (.unknown _) => none
  | .field id => some ⟨o.spot tabs, .field id (o.item.drop 1)⟩

theorem mem_fieldsInside {o : Occurrence} {id : String} (hk : o.item.kind = .field id) :
    x ∈ o.fieldsInside ↔ o.inside.isSome = true ∧ x = id := by
  rw [fieldsInside, Item.fieldIds, hk]
  split <;> simp [*]

theorem fieldsInside_of_special {o : Occurrence} (hk : o.item.kind = .special token) :
    o.fieldsInside = [] := by
  rw [fieldsInside, Item.fieldIds, hk]
  exact ite_self _

end Occurrence

/-- The occurrences that are not dropped. -/
def kept (known : String → Bool) : List String → List Occurrence → List Occurrence
  | _, [] => []
  | placed, o :: rest =>
    (if o.counts known placed then [o] else []) ++ kept known (placed ++ o.fieldsInside) rest

def place (ps : List Placement) (o : Occurrence) : List Placement :=
  ps ++ (o.placement? (Placement.tabs ps)).toList

/-- All that a layout places, with a tab in front for items in front of the first tab. -/
def placements (label : String) (around : Surroundings) (columns : Columns) (items : List Item) :
    List Placement :=
  (kept (around.knows columns) [] (occurrences around.palettes [] items)).foldl place
    (if startsWithTab items then [] else [⟨.form, .tab [label]⟩])

/-- The form that a layout describes. -/
def form (label : String) (around : Surroundings) (columns : Columns) (items : List Item) : Form :=
  Placement.form (Placement.standing (placements label around columns items))

theorem occurrences_cons {item : Item} (hk : item.kind ≠ .special .palette) (palettes : Palettes)
    (seen : List String) (rest : List Item) : occurrences palettes seen (item :: rest) =
      ⟨none, item⟩ :: occurrences palettes seen rest := by
  rw [occurrences, occurrencesOf, if_neg hk, declared?, Item.reference?_of_kind hk]
  rfl

/-- What stands inside a palette is one of its items, and the layout refers to the palette. -/
theorem exists_reference_of_mem {palettes : Palettes} {seen : List String} {items : List Item}
    {o : Occurrence} (ho : o ∈ occurrences palettes seen items) (hn : o.inside = some name) :
    (∃ item ∈ items, item.reference? = some name) ∧ o.item ∈ itemsOf palettes name := by
  induction items generalizing seen with
  | nil => cases ho
  | cons item rest ih =>
    rw [occurrences, List.mem_append] at ho
    rcases ho with ho | ho
    · rw [occurrencesOf] at ho
      split at ho
      · split at ho
        · next own hown =>
          rcases List.mem_cons.1 ho with rfl | ho
          · cases hn
          · obtain ⟨i, hi, rfl⟩ := List.mem_map.1 ho
            cases hn
            have href := (Option.filter_eq_some_iff.1 hown).1
            exact ⟨⟨item, List.mem_cons_self, href⟩, hi⟩
        · cases ho
      · rw [List.mem_singleton.1 ho] at hn
        cases hn
    · obtain ⟨⟨i, hi, href⟩, hitem⟩ := ih ho
      exact ⟨⟨i, List.mem_cons_of_mem _ hi, href⟩, hitem⟩

theorem mem_paletteFields {layout : Layout} {o : Occurrence} {id : String}
    (ho : o ∈ occurrences layout.palettes [] (ShowItem.parse layout.showItem))
    (hid : id ∈ o.fieldsInside) : id ∈ layout.paletteFields := by
  rw [Occurrence.fieldsInside] at hid
  split at hid
  · next hinside =>
    obtain ⟨name, hn⟩ := Option.isSome_iff_exists.1 hinside
    obtain ⟨⟨item, hi, href⟩, hitem⟩ := exists_reference_of_mem ho hn
    exact List.mem_flatMap.2 ⟨name, List.mem_filterMap.2 ⟨item, hi, href⟩,
      List.mem_flatMap.2 ⟨o.item, hitem, hid⟩⟩
  · cases hid

theorem kept_append (known : String → Bool) (placed : List String) (a b : List Occurrence) :
    kept known placed (a ++ b) =
      kept known placed a ++ kept known (placed ++ a.flatMap Occurrence.fieldsInside) b := by
  induction a generalizing placed with
  | nil => rw [List.nil_append, List.flatMap_nil, List.append_nil, kept, List.nil_append]
  | cons o a ih =>
    rw [List.cons_append, kept, kept, ih, List.flatMap_cons, List.append_assoc, List.append_assoc]

theorem place_tab {o : Occurrence} (hk : o.item.kind = .special .tab) (ps : List Placement) :
    place ps o = ps ++ [⟨.form, .tab (o.item.drop 1)⟩] := by
  rw [place, Occurrence.placement?, hk]
  rfl

theorem place_palette {o : Occurrence} (href : o.item.reference? = some name)
    (ps : List Placement) : place ps o =
      ps ++ [⟨o.spot (Placement.tabs ps), .palette name (o.item.drop 1).dropLast⟩] := by
  rw [place, Occurrence.placement?, (Item.reference?_eq_some_iff.1 href).1, href]
  rfl

theorem place_lineBreak {o : Occurrence} (hk : o.item.kind = .special .lineBreak)
    (ps : List Placement) :
    place ps o = ps ++ [⟨o.spot (Placement.tabs ps), .lineBreak⟩] := by
  rw [place, Occurrence.placement?, hk]
  rfl

theorem place_field {o : Occurrence} {id : String} (hk : o.item.kind = .field id)
    (ps : List Placement) :
    place ps o = ps ++ [⟨o.spot (Placement.tabs ps), .field id (o.item.drop 1)⟩] := by
  rw [place, Occurrence.placement?, hk]
  rfl

theorem tabs_le_place (ps : List Placement) (o : Occurrence) :
    Placement.tabs ps ≤ Placement.tabs (place ps o) := by
  rw [place, Placement.tabs, Placement.tabs, List.countP_append]
  exact Nat.le_add_right _ _

theorem tabs_foldl_place_pos {ps : List Placement} (h : 0 < Placement.tabs ps)
    (os : List Occurrence) : 0 < Placement.tabs (os.foldl place ps) := by
  induction os generalizing ps with
  | nil => exact h
  | cons o os ih => exact ih (Nat.lt_of_lt_of_le h (tabs_le_place ps o))

theorem kept_singleton (known : String → Bool) (placed : List String) (o : Occurrence) :
    kept known placed [o] = if o.counts known placed then [o] else [] := by
  rw [kept, kept, List.append_nil]

theorem kept_cons_of_special {o : Occurrence} (hk : o.item.kind = .special token)
    (known : String → Bool) (placed : List String) (os : List Occurrence) :
    kept known placed (o :: os) = o :: kept known placed os := by
  rw [kept, Occurrence.fieldsInside_of_special hk, List.append_nil, Occurrence.counts, hk]
  rfl

end Layout

end FormLayout
