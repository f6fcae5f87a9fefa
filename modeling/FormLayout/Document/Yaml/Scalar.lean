import FormLayout.Document.Value
import FormLayout.Number.Radix
/-!
The scalars of YAML and their values. Without quotes a text may mean null, a boolean, an integer in
one of four bases, or a floating point number; tags may ask for one of these, or for text.
-/

namespace FormLayout.Yaml

def isNull (s : String) : Bool := ["null", "Null", "NULL", "~"].contains s

def bool? (s : String) : Option Bool :=
  if ["true", "True", "TRUE"].contains s then some true
  else if ["false", "False", "FALSE"].contains s then some false
  else none

/-- Digits with a needless zero in front are text. -/
def hasNeedlessZero (cs : List Char) : Bool :=
  let body := match cs with
    | '-' :: rest | '+' :: rest => rest
    | _ => cs
  match body with
  | '0' :: rest => !rest.isEmpty && rest.all Char.isDigit
  | _ => false

/-- The digits after a mark of the base. -/
def based? : List Char → Option Nat
  | '0' :: 'x' :: rest => Radix.natural? 16 rest
  | '0' :: 'o' :: rest => Radix.natural? 8 rest
  | '0' :: 'b' :: rest => Radix.natural? 2 rest
  | _ => none

/-- An integer counts as one if it fits 128 bits, with or without a sign. -/
def isWide (n : Int) : Bool := -Int.pow 2 127 ≤ n && n < Int.pow 2 128

/-- Values hold integers that fit 64 bits. -/
def isStored (n : Int) : Bool := -Int.pow 2 63 ≤ n && n < Int.pow 2 64

def integer? (s : String) : Option Int :=
  let cs := s.toList
  let (negative, body) := match cs with
    | '-' :: rest => (true, rest)
    | '+' :: rest => (false, rest)
    | _ => (false, cs)
  let size := match based? body with
    | some n => some n
    | none => if hasNeedlessZero cs then none else Radix.natural? 10 body
  (size.map fun n => if negative then -(n : Int) else n).filter isWide

def isSpecialFloat (s : String) : Bool :=
  [".inf", ".Inf", ".INF", "+.inf", "+.Inf", "+.INF", "-.inf", "-.Inf", "-.INF", ".nan", ".NaN",
    ".NAN"].contains s

/-- A floating point number; none inside for infinities and what is no number. -/
def float? (s : String) : Option (Option Binary64) :=
  if isSpecialFloat s then some none else (Literal.decimal? s.toList).map some

/-- What a text without quotes means. -/
inductive Meaning where
  | null
  | bool (b : Bool)
  | integer (n : Int)
  | float (x : Option Binary64)
  | text

def Meaning.ofText (s : String) : Meaning :=
  if s.isEmpty || isNull s then .null
  else
    match bool? s, integer? s, float? s with
    | some b, _, _ => .bool b
    | none, some n, _ => .integer n
    | none, none, some x => if hasNeedlessZero s.toList then .text else .float x
    | none, none, none => .text

def integerValue? (n : Int) : Option Value :=
  if isStored n then some (.number (.integer n)) else none

/-- Values have no infinities; null stands for these. -/
def floatValue : Option Binary64 → Value
  | some x => .number (.float x)
  | none => .null

def Meaning.value? (s : String) : Meaning → Option Value
  | .null => some .null
  | .bool b => some (.bool b)
  | .integer n => integerValue? n
  | .float x => some (floatValue x)
  | .text => some (.string s)

/-- How a scalar is written. -/
inductive ScalarStyle where
  | plain
  | quoted
  | literal
  | folded
  deriving DecidableEq, Repr

structure Scalar where
  tag : Option String
  style : ScalarStyle
  text : String
  deriving Repr

/-- The tag of a type that every document knows. -/
def commonTag (name : String) : String := "tag:yaml.org,2002:" ++ name

/-- The name behind the mark of a tag that belongs to one application. -/
def localName? (tag : String) : Option String :=
  match tag.toList with
  | ['!'] => some "!"
  | '!' :: rest => some (String.ofList rest)
  | _ => none

namespace Scalar

def empty : Scalar := ⟨none, .plain, ""⟩

/-- The value of a scalar. A tag of a known type asks for this type, and any other one for text.
Values have no tags of their own, so that a tag of an application has no value. -/
def value? (s : Scalar) : Option Value :=
  match s.tag with
  | none =>
    if s.style = .plain then (Meaning.ofText s.text).value? s.text else some (.string s.text)
  | some tag =>
    if (localName? tag).isSome then none
    else if tag = commonTag "bool" then (bool? s.text).map .bool
    else if tag = commonTag "int" then (integer? s.text).bind integerValue?
    else if tag = commonTag "float" then (float? s.text).map floatValue
    else if tag = commonTag "null" then if isNull s.text then some .null else none
    else some (.string s.text)

end Scalar

end FormLayout.Yaml
