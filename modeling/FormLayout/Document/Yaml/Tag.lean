import FormLayout.Document.Yaml.Place
import FormLayout.Number.Radix
/-!
The words with a mark in front: names of anchors, tags, and directives in front of a document.
-/

namespace FormLayout.Yaml

def isWordChar (c : Char) : Bool := c.isAlphanum || c = '_' || c = '-'

/-- The name of an anchor, and what follows it. -/
def anchorName? (cs : List Char) : Option (String × List Char) :=
  let name := cs.takeWhile isWordChar
  let rest := cs.dropWhile isWordChar
  let ends := isGap rest || (rest.head?.map "?:,]\x7d%@\x60".toList.contains).getD false
  if !name.isEmpty && ends then some (String.ofList name, rest) else none

/-- A tag: the handle in front, whose meaning a directive may set, and the rest. A tag in full has
no handle. -/
structure Tag where
  handle : String
  suffix : String
  deriving DecidableEq, Repr

/-- The bytes of a character in escapes, by the first one of them: how many there are, and what the
first one holds. -/
def leadingByte? (n : Nat) : Option (Nat × Nat) :=
  if n < 0x80 then some (1, n)
  else if n / 0x20 = 6 then some (2, n % 0x20)
  else if n / 0x10 = 14 then some (3, n % 0x10)
  else if n / 0x08 = 30 then some (4, n % 0x08)
  else none

/-- An escaped byte, and what follows it. -/
def escapedByte? : List Char → Option (Nat × List Char)
  | '%' :: a :: b :: rest => (Radix.natural? 16 [a, b]).map fun n => (n, rest)
  | _ => none

/-- The other bytes of an escaped character. -/
def trailingBytes? : (count value : Nat) → List Char → Option (Nat × List Char)
  | 0, value, cs => some (value, cs)
  | count + 1, value, cs => do
    let (n, rest) ← escapedByte? cs
    if n / 0x40 = 2 then trailingBytes? count (0x40 * value + n % 0x40) rest else none

/-- A character that is written as escaped bytes. -/
def escapedCharacter? (cs : List Char) : Option (Char × List Char) := do
  let (n, rest) ← escapedByte? cs
  let (count, value) ← leadingByte? n
  let (value, rest) ← trailingBytes? (count - 1) value rest
  return (Char.ofNat value, rest)

def isTagChar (inFull : Bool) (c : Char) : Bool :=
  isWordChar c || ";/?:@&=+$.%!~*\x27()".toList.contains c || (inFull && ",[]".toList.contains c)

/-- The characters of a tag, and what follows them. There are no more than the given number. -/
def tagText? (inFull : Bool) : Nat → (rev : List Char) → List Char → Option (String × List Char)
  | n + 1, rev, '%' :: rest => do
    let (c, rest) ← escapedCharacter? ('%' :: rest)
    tagText? inFull n (c :: rev) rest
  | n + 1, rev, c :: rest =>
    if isTagChar inFull c then tagText? inFull n (c :: rev) rest
    else some (String.ofList rev.reverse, c :: rest)
  | _, rev, cs => some (String.ofList rev.reverse, cs)

/-- The characters of a tag, at least one. -/
def someTagText? (inFull : Bool) (cs : List Char) : Option (String × List Char) :=
  match tagText? inFull cs.length [] cs with
  | some (s, rest) => if rest.length < cs.length then some (s, rest) else none
  | none => none

/-- The tag behind an exclamation mark, and what follows it. -/
def tag? (cs : List Char) : Option (Tag × List Char) :=
  match cs with
  | '<' :: cs => do
    match ← someTagText? true cs with
    | (s, '>' :: rest) => some (⟨"", s⟩, rest)
    | _ => none
  | _ =>
    let word := cs.takeWhile isWordChar
    match cs.dropWhile isWordChar with
    | '!' :: rest => do
      let (s, rest) ← someTagText? false rest
      return (⟨String.ofList ('!' :: word ++ ['!']), s⟩, rest)
    | rest => do
      let (s, rest) ← tagText? false rest.length word.reverse rest
      return (if s.isEmpty then ⟨"", "!"⟩ else ⟨"!", s⟩, rest)

/-- What a line in front of a document sets: its version, or the meaning of the handle of a tag. -/
inductive Directive where
  | version (major minor : Nat)
  | handle (name start : String)
  deriving DecidableEq, Repr

/-- A number of at most nine digits, and what follows it. -/
def versionNumber? (cs : List Char) : Option (Nat × List Char) :=
  let digits := cs.takeWhile Char.isDigit
  if 9 < digits.length then none
  else (Radix.natural? 10 digits).map fun n => (n, cs.dropWhile Char.isDigit)

/-- The handle in a directive: the mark alone, or twice with a word between. -/
def handle? (cs : List Char) : Option (String × List Char) :=
  match cs with
  | '!' :: cs =>
    let word := cs.takeWhile isWordChar
    match cs.dropWhile isWordChar with
    | '!' :: rest => some (String.ofList ('!' :: word ++ ['!']), rest)
    | rest => if word.isEmpty then some ("!", rest) else none
  | _ => none

/-- A directive behind its mark, and what follows it on its line. -/
def directive? (cs : List Char) : Option (Directive × List Char) :=
  let name := cs.takeWhile isWordChar
  let rest := cs.dropWhile isWordChar
  let value := rest.dropWhile isSpace
  if !isGap rest then none
  else if name = ['Y', 'A', 'M', 'L'] then do
    match ← versionNumber? value with
    | (major, '.' :: rest) =>
      (versionNumber? rest).map fun (minor, rest) => (.version major minor, rest)
    | _ => none
  else if name = ['T', 'A', 'G'] then do
    let (name, rest) ← handle? value
    let (start, rest) ← match rest with
      | c :: _ => if isSpace c then someTagText? true (rest.dropWhile isSpace) else none
      | [] => none
    if isGap rest then some (.handle name start, rest) else none
  else none

/-- What follows a directive: a comment, and the end of the line. -/
def endDirective? (cs : List Char) : Option (List Char) :=
  let rest := cs.dropWhile isSpace
  let rest := if rest.head? = some '#' then rest.dropWhile fun c => !isBreak c else rest
  match rest with
  | [] => some []
  | c :: _ => if isBreak c then some rest else none

end FormLayout.Yaml
