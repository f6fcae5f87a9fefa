import FormLayout.Document.Yaml.Scalar
import FormLayout.Document.Yaml.Sheet
/-!
The YAML text of a value in blocks: two spaces for each level, lists at the depth of their key. A
text is quoted when it would else mean something different.
-/

namespace FormLayout.Yaml

def floatFormat : FloatFormat := ⟨-5, 15, false⟩

/-- Whether a text would mean something else without quotes. -/
def isAmbiguous (s : String) : Bool :=
  hasNeedlessZero s.toList ||
    match Meaning.ofText s with
    | .text => false
    | _ => true

def isPrintable (c : Char) : Bool :=
  let n := c.toNat
  n = 10 || (0x20 ≤ n && n ≤ 0x7E) || (0xA0 ≤ n && n ≤ 0xFFFD && n ≠ 0xFEFF) || 0x10000 ≤ n

/-- A character that may not start a plain text. -/
def isLeadIndicator (c : Char) : Bool := "#,[]{}&*!|>\x27\"%@\x60".toList.contains c

/-- Whether a text after its first character holds a colon before a gap or a hash after one. -/
def hasIndicator : (afterGap : Bool) → List Char → Bool
  | _, [] => false
  | afterGap, c :: rest =>
    (c = ':' && isGap rest) || (c = '#' && afterGap) || hasIndicator (isGap [c]) rest

/-- Whether a plain text in a block would be read as something else than a scalar. -/
def hasBlockIndicator : List Char → Bool
  | [] => false
  | '-' :: '-' :: '-' :: _ => true
  | '.' :: '.' :: '.' :: _ => true
  | c :: rest =>
    isLeadIndicator c || ((c = '?' || c = ':' || c = '-') && isGap rest) ||
      hasIndicator (isGap [c]) rest

/-- Whether a space stands next to a line break, in the given order. -/
def hasPair (first second : Char → Bool) : List Char → Bool
  | a :: b :: rest => (first a && second b) || hasPair first second (b :: rest)
  | _ => false

/-- The ways of writing a text. -/
inductive Style where
  | plain
  | single
  | double
  | literal
  deriving DecidableEq

/-- The style of a text that may have any. Keys on one line must not be empty. -/
def styleOf (s : String) : Style :=
  let cs := s.toList
  let space (c : Char) : Bool := c = ' '
  let edge (c : Option Char) : Bool := match c with
    | some c => space c || isBreak c
    | none => false
  let special := cs.any (fun c => !isPrintable c) || hasPair space isBreak cs
  let quoted := if special || hasPair isBreak space cs then Style.double else Style.single
  if cs.contains '\n' then
    if special || cs.getLast? = some ' ' then .double else .literal
  else if isAmbiguous s || special || cs.any isBreak || edge cs.head? || edge cs.getLast? ||
      hasBlockIndicator cs then quoted
  else .plain

def hexUpper (n : Nat) : Char := Char.ofNat (if n < 10 then 48 + n else 55 + n)

def hexText (width n : Nat) : List Char :=
  (List.range width).map fun i => hexUpper (n / Nat.pow 16 (width - 1 - i) % 16)

/-- How a character stands between double quotes. -/
def escape (c : Char) : List Char :=
  let n := c.toNat
  if c = '"' then ['\\', '"']
  else if c = '\\' then ['\\', '\\']
  else if isPrintable c && !isBreak c then [c]
  else if n = 0 then ['\\', '0']
  else if n = 7 then ['\\', 'a']
  else if n = 8 then ['\\', 'b']
  else if n = 9 then ['\\', 't']
  else if n = 10 then ['\\', 'n']
  else if n = 11 then ['\\', 'v']
  else if n = 12 then ['\\', 'f']
  else if n = 13 then ['\\', 'r']
  else if n = 27 then ['\\', 'e']
  else if n = 0x85 then ['\\', 'N']
  else if n = 0x2028 then ['\\', 'L']
  else if n = 0x2029 then ['\\', 'P']
  else if n ≤ 0xFF then '\\' :: 'x' :: hexText 2 n
  else if n ≤ 0xFFFF then '\\' :: 'u' :: hexText 4 n
  else '\\' :: 'U' :: hexText 8 n

/-- A word on the line. -/
def plain (s : Sheet) (cs : List Char) : Sheet :=
  let s := if !s.spaced && !cs.isEmpty then s.put [' '] else s
  { s.put cs with spaced := false, indenting := false }

/-- Single quotes are written twice. A line break at the end is followed by indentation. -/
def singleQuoted (column : Nat) (s : Sheet) (cs : List Char) : Sheet :=
  let twice (c : Char) : List Char := if c = '\x27' then [c, c] else [c]
  let s := (s.mark ['\x27'] true false).lines column twice false cs
  let s := if (cs.getLast?.map isBreak).getD false then s.indent column else s
  s.mark ['\x27'] false false

def doubleQuoted (s : Sheet) (cs : List Char) : Sheet :=
  (((s.mark ['"'] true false).put (cs.flatMap escape)).mark ['"'] false false)

/-- The marks of a text under a bar: the depth if it begins with a gap, and whether the line breaks
at its end count: none, the last one alone, or all of them. -/
def literalHints (cs : List Char) : List Char :=
  let gap (c : Option Char) : Bool := (c.map fun c => c = ' ' || isBreak c).getD false
  let ends : List Char := match cs.reverse with
    | [] => ['-']
    | [c] => if isBreak c then ['+'] else ['-']
    | c :: d :: _ => if !isBreak c then ['-'] else if isBreak d then ['+'] else []
  (if gap cs.head? then ['2'] else []) ++ ends

/-- A text line by line under a bar. -/
def literal (column : Nat) (s : Sheet) (cs : List Char) : Sheet :=
  let s := ((s.mark ['|'] true false).put (literalHints cs)).newLine
  { s with spaced := true, indenting := true }.lines column (fun c => [c]) true cs

/-- Writes a text whose lines go on at a column. -/
def text (column : Nat) (s : Sheet) (t : String) : Sheet :=
  let cs := t.toList
  match styleOf t with
  | .plain => plain s cs
  | .single => singleQuoted column s cs
  | .double => doubleQuoted s cs
  | .literal => literal column s cs

/-- Whether a key goes on one line with its value: it has no line breaks and at most 128 bytes. -/
def isSimpleKey (key : String) : Bool := !key.toList.any isBreak && key.utf8ByteSize ≤ 128

def number : Number → String
  | .integer n => toString n
  | .float x => floatFormat.write x

/-- The column of a level below another one, or of the top level. -/
def below : Option Nat → Nat
  | none => 0
  | some n => n + 2

mutual

/-- Writes a value below a level. Lists below a key stay at its level, unless they stand in line
with it. -/
def node (level : Option Nat) (isField : Bool) (s : Sheet) : Value → Sheet
  | .null => plain s "null".toList
  | .bool b => plain s (if b then "true" else "false").toList
  | .number n => plain s (number n).toList
  | .string t => text (level.getD 0 + 2) s t
  | .array [] => (s.mark ['['] true false).mark [']'] false false
  | .array (x :: xs) =>
    items (if isField && !s.indenting then level.getD 0 else below level) s (x :: xs)
  | .object [] => (s.mark ['\x7b'] true false).mark ['\x7d'] false false
  | .object (f :: fs) => fields (below level) s (f :: fs)

def items (column : Nat) (s : Sheet) : List Value → Sheet
  | [] => s
  | x :: xs => items column (node (some column) false ((s.indent column).mark ['-'] true true) x) xs

def fields (column : Nat) (s : Sheet) : List (String × Value) → Sheet
  | [] => s
  | (k, x) :: rest =>
    let s := s.indent column
    let s :=
      if isSimpleKey k then (text (column + 2) s k).mark [':'] false false
      else ((text (column + 2) (s.mark ['?'] true true) k).indent column).mark [':'] true true
    fields column (node (some column) true s x) rest

end

/-- The text of a document. -/
def write (v : Value) : String := ((node none false .empty v).indent 0).text

end FormLayout.Yaml
