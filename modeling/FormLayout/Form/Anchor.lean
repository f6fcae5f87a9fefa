/-!
Places in a list of siblings.
-/

namespace FormLayout

/-- A place among siblings. -/
inductive Anchor where
  | first
  | last
  | before (sibling : String)
  | after (sibling : String)
  deriving DecidableEq, Repr

namespace Anchor

def insertBefore (sibling id : String) : List String → List String
  | [] => [id]
  | x :: rest => if x = sibling then id :: x :: rest else x :: insertBefore sibling id rest

def insertAfter (sibling id : String) : List String → List String
  | [] => [id]
  | x :: rest => if x = sibling then x :: id :: rest else x :: insertAfter sibling id rest

/-- Inserts an id at the place. An absent sibling means the end. -/
def insert (id : String) (siblings : List String) : Anchor → List String
  | .first => id :: siblings
  | .last => siblings ++ [id]
  | .before sibling => insertBefore sibling id siblings
  | .after sibling => insertAfter sibling id siblings

theorem mem_insertBefore {sibling id x : String} {l : List String} :
    x ∈ insertBefore sibling id l ↔ x = id ∨ x ∈ l := by
  induction l with
  | nil => simp [insertBefore]
  | cons y rest ih =>
    rw [insertBefore]
    split
    · simp
    · simp [ih, or_left_comm]

theorem mem_insertAfter {sibling id x : String} {l : List String} :
    x ∈ insertAfter sibling id l ↔ x = id ∨ x ∈ l := by
  induction l with
  | nil => simp [insertAfter]
  | cons y rest ih =>
    rw [insertAfter]
    split
    · simp [or_left_comm]
    · simp [ih, or_left_comm]

theorem mem_insert {id x : String} {l : List String} (a : Anchor) :
    x ∈ a.insert id l ↔ x = id ∨ x ∈ l := by
  cases a with
  | first => simp [insert]
  | last => simp [insert, or_comm]
  | before sibling => exact mem_insertBefore
  | after sibling => exact mem_insertAfter

end Anchor

end FormLayout
