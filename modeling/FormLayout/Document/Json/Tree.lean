import FormLayout.Document.Value
/-!
JSON texts as trees. A tree keeps repeated names, and it exists also where a number is too large or
a string has half of a surrogate pair; such a tree has no value.
-/

namespace FormLayout.Json

inductive Tree where
  | null
  | bool (b : Bool)
  | number (n : Option Number)
  | string (s : Option String)
  | array (items : List Tree)
  | object (fields : List (Option String × Tree))
  deriving Inhabited, Repr

namespace Tree

mutual

/-- The value of a tree. -/
def value? : Tree → Option Value
  | .null => some .null
  | .bool b => some (.bool b)
  | .number n => n.map .number
  | .string s => s.map .string
  | .array items => (values? items).map .array
  | .object fields => (valueFields? fields).map fun m => .object (Entries.ofList m)

def values? : List Tree → Option (List Value)
  | [] => some []
  | x :: rest => do return (← value? x) :: (← values? rest)

def valueFields? : List (Option String × Tree) → Option (List (String × Value))
  | [] => some []
  | (k, x) :: rest => do return (← k, ← value? x) :: (← valueFields? rest)

end

mutual

/-- The tree of a value. -/
def ofValue : Value → Tree
  | .null => .null
  | .bool b => .bool b
  | .number n => .number (some n)
  | .string s => .string (some s)
  | .array items => .array (ofValues items)
  | .object fields => .object (ofValueFields fields)

def ofValues : List Value → List Tree
  | [] => []
  | x :: rest => ofValue x :: ofValues rest

def ofValueFields : List (String × Value) → List (Option String × Tree)
  | [] => []
  | (k, x) :: rest => (some k, ofValue x) :: ofValueFields rest

end

end Tree

end FormLayout.Json
