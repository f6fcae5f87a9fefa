import FormLayout.Entries
import FormLayout.Number.Literal
/-!
Values of documents. The fields of an object are ordered, but the order does not count for equality.
-/

namespace FormLayout

/-- A value of a document. -/
inductive Value where
  | null
  | bool (b : Bool)
  | number (n : Number)
  | string (s : String)
  | array (items : List Value)
  | object (fields : List (String × Value))
  deriving Inhabited, Repr

/-- The fields of an object, such as the configuration of one column. -/
abbrev Fields := Entries Value

namespace Value

mutual

/-- Equality of values; the order of an object's fields does not count. -/
def equal : Value → Value → Bool
  | .null, .null => true
  | .bool a, .bool b => a == b
  | .number m, .number n => m.equal n
  | .string s, .string t => s == t
  | .array xs, .array ys => equalItems xs ys
  | .object m, .object n => m.length == n.length && equalFields m n
  | _, _ => false

def equalItems : List Value → List Value → Bool
  | [], [] => true
  | x :: xs, y :: ys => equal x y && equalItems xs ys
  | _, _ => false

/-- Every field of the first list has an equal one in the second. -/
def equalFields : List (String × Value) → List (String × Value) → Bool
  | [], _ => true
  | (k, x) :: rest, n =>
    (match Entries.get? n k with
      | some y => equal x y
      | none => false) && equalFields rest n

end

def string? : Value → Option String
  | .string s => some s
  | _ => none

def fields? : Value → Option Fields
  | .object m => some m
  | _ => none

def ofFields (m : Entries Fields) : Value := .object (m.map fun e => (e.1, .object e.2))

def ofStrings (l : List String) : Value := .array (l.map .string)

end Value

/-- The configurations of columns by field name. -/
abbrev Columns := Entries Fields

/-- The show items of palettes by palette name. -/
abbrev Palettes := Entries String

namespace Columns

/-- Equality of the configurations, in any order. -/
def equal (m n : Columns) : Bool := Value.equal (.ofFields m) (.ofFields n)

def ofFields (m : Fields) : Columns := m.filterMap fun e => e.2.fields?.map fun f => (e.1, f)

end Columns

end FormLayout
