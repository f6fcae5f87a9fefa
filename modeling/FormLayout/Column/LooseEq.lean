import FormLayout.Document.Value
import FormLayout.Text.Blank
/-!
Loose equality of configuration values: numbers and numeric texts compare by value, arrays and
objects item by item, all else strictly.
-/

namespace FormLayout.Column

/-- The value of a decimal text with blanks around it. -/
def numericText? (s : String) : Option Binary64 := Literal.decimal? (Text.trimChars s.toList)

def sameNumber : Option Binary64 → Option Binary64 → Bool
  | some x, some y => x.equal y
  | _, _ => false

mutual

def looseEq : Value → Value → Bool
  | .null, .null => true
  | .bool a, .bool b => a == b
  | .number m, .number n => m.equal n || sameNumber m.toBinary64? n.toBinary64?
  | .number n, .string s => sameNumber n.toBinary64? (numericText? s)
  | .string s, .number n => sameNumber (numericText? s) n.toBinary64?
  | .string s, .string t => s == t || sameNumber (numericText? s) (numericText? t)
  | .array xs, .array ys => looseEqItems xs ys
  | .object m, .object n => m.length == n.length && looseEqFields m n
  | _, _ => false

def looseEqItems : List Value → List Value → Bool
  | [], [] => true
  | x :: xs, y :: ys => looseEq x y && looseEqItems xs ys
  | _, _ => false

/-- Every field of the first list has a loosely equal one in the second. -/
def looseEqFields : List (String × Value) → List (String × Value) → Bool
  | [], _ => true
  | (k, x) :: rest, n =>
    (match Entries.get? n k with
      | some y => looseEq x y
      | none => false) && looseEqFields rest n

end

end FormLayout.Column
