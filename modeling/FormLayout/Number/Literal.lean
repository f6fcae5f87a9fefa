import FormLayout.Number.Decimal
/-!
Numbers as they stand in documents, and the reading of their literals.

A document's literal is read in two steps: the leading digits that fit 64 bits, then one scaling by
a rounded power of ten. A numeric text is read exactly.
-/

namespace FormLayout

/-- A number of a document. Integers are those of 64 bits, signed or unsigned. -/
inductive Number where
  | integer (n : Int)
  | float (x : Binary64)
  deriving DecidableEq, Repr

namespace Number

/-- Strict equality: an integer never equals a floating point number. -/
def equal : Number → Number → Bool
  | .integer m, .integer n => m == n
  | .float x, .float y => x.equal y
  | _, _ => false

def toBinary64? : Number → Option Binary64
  | .integer n => Binary64.ofInt? n
  | .float x => some x

end Number

namespace Literal

def digitValue (c : Char) : Nat := c.toNat - '0'.toNat

def ofDigits (ds : List Char) : Nat := ds.foldl (fun n c => 10 * n + digitValue c) 0

/-- Appends digits to a word as long as it fits 64 bits, and returns the digits left over. -/
def fillWord : Nat → List Char → Nat × List Char
  | word, [] => (word, [])
  | word, c :: rest =>
    if 10 * word + digitValue c < Nat.pow 2 64 then fillWord (10 * word + digitValue c) rest
    else (word, c :: rest)

def powerOfTen? (n : Nat) : Option Binary64 := Binary64.nearest? false (Nat.pow 10 n) 1

/-- The rounded word times or divided by a rounded power of ten; none when it is too large. A word
divided twice by the greatest power leaves nothing. -/
def scale? (negative : Bool) (word : Nat) (exponent : Int) : Option Binary64 := do
  let x ← Binary64.nearest? negative word 1
  if 308 < exponent then
    if word = 0 then some x else none
  else if 0 ≤ exponent then
    x.mul? (← powerOfTen? exponent.toNat)
  else if -308 ≤ exponent then
    x.div? (← powerOfTen? (-exponent).toNat)
  else if -616 ≤ exponent then
    (← x.div? (← powerOfTen? 308)).div? (← powerOfTen? (-exponent - 308).toNat)
  else
    some (Binary64.zero negative)

def span (cs : List Char) : List Char × List Char :=
  (cs.takeWhile Char.isDigit, cs.dropWhile Char.isDigit)

/-- An exponent part, with its sign, up to the end of the text. -/
def exponent? : List Char → Option Int
  | '-' :: cs => if cs.all Char.isDigit && !cs.isEmpty then some (-(ofDigits cs : Int)) else none
  | '+' :: cs => if cs.all Char.isDigit && !cs.isEmpty then some (ofDigits cs) else none
  | cs => if cs.all Char.isDigit && !cs.isEmpty then some (ofDigits cs) else none

/-- What may follow the digits before the point: the digits of a fraction, and an exponent. -/
def tail? (cs : List Char) : Option (Option (List Char) × Option Int) :=
  match cs with
  | [] => some (none, none)
  | '.' :: rest =>
    match span rest with
    | (fraction, []) => some (some fraction, none)
    | (fraction, c :: e) =>
      if c = 'e' || c = 'E' then (exponent? e).map fun x => (some fraction, some x) else none
  | c :: e => if c = 'e' || c = 'E' then (exponent? e).map fun x => (none, some x) else none

def wholeNumber? (negative : Bool) (digits : List Char) : Option Number :=
  let n := ofDigits digits
  if n < Nat.pow 2 64 then
    if !negative then some (.integer n)
    else if n ≠ 0 && n ≤ Nat.pow 2 63 then some (.integer (-(n : Int)))
    else (Binary64.nearest? true n 1).map .float
  else
    let (word, rest) := fillWord 0 digits
    (scale? negative word rest.length).map .float

/-- Reads a number literal of a document: no sign but minus, no needless zero in front, digits on
both sides of the point. The number of a literal is none when it is too large. -/
def number? (cs : List Char) : Option (Option Number) :=
  let (negative, body) := match cs with
    | '-' :: rest => (true, rest)
    | _ => (false, cs)
  let (digits, rest) := span body
  if digits.isEmpty || (digits.head? = some '0' && digits.length ≠ 1) then none
  else
    match tail? rest with
    | none => none
    | some (none, none) => some (wholeNumber? negative digits)
    | some (fraction, e) =>
      if fraction = some [] then none
      else
        let (word, dropped) := fillWord 0 digits
        let fraction := fraction.getD []
        let (word, left) := fillWord word fraction
        let shift : Int := dropped.length - (fraction.length - left.length : Nat) + e.getD 0
        some ((scale? negative word shift).map .float)

/-- Reads a decimal text exactly: a sign, digits with or without a point, an exponent. None when
the text is no such number or it is too large. -/
def decimal? (cs : List Char) : Option Binary64 :=
  let (negative, body) := match cs with
    | '-' :: rest => (true, rest)
    | '+' :: rest => (false, rest)
    | _ => (false, cs)
  let (digits, rest) := span body
  match tail? rest with
  | none => none
  | some (fraction, e) =>
    let fraction := fraction.getD []
    if digits.isEmpty && fraction.isEmpty then none
    else
      Decimal.nearest? negative ⟨ofDigits (digits ++ fraction), e.getD 0 - fraction.length⟩

end Literal

end FormLayout
