/-!
The characters of a YAML text and the places between them.
-/

namespace FormLayout.Yaml

def isSpace (c : Char) : Bool := c = ' ' || c = '\t'

def isBreak (c : Char) : Bool :=
  c = '\n' || c = '\r' || c = '\u0085' || c = '\u2028' || c = '\u2029'

/-- Whether a text begins with a gap between words, such as its end. -/
def isGap : List Char → Bool
  | [] => true
  | c :: _ => isSpace c || isBreak c || c = '\x00'

/-- Whether a character may stand in a text: no control characters but tabs and line breaks. -/
def isAllowed (c : Char) : Bool :=
  let n := c.toNat
  n = 0x09 || n = 0x0A || n = 0x0D || (0x20 ≤ n && n ≤ 0x7E) || n = 0x85 ||
    (0xA0 ≤ n && n ≤ 0xFFFD) || 0x10000 ≤ n

/-- Line breaks are one character each; only those of lines and paragraphs stay as they are. -/
def normalBreaks : List Char → List Char
  | '\r' :: '\n' :: rest => '\n' :: normalBreaks rest
  | c :: rest => (if c = '\r' || c = '\u0085' then '\n' else c) :: normalBreaks rest
  | [] => []

/-- A place in a text, by the number of characters in front of it, of lines above it, and of
characters in front of it on its line. -/
structure Place where
  index : Nat
  line : Nat
  column : Nat
  deriving DecidableEq, Repr

namespace Place

def start : Place := ⟨0, 0, 0⟩

/-- The place behind a character. -/
def after (p : Place) (c : Char) : Place :=
  if isBreak c then ⟨p.index + 1, p.line + 1, 0⟩ else ⟨p.index + 1, p.line, p.column + 1⟩

/-- The place some characters further on the line. -/
def forward (p : Place) (n : Nat) : Place := ⟨p.index + n, p.line, p.column + n⟩

end Place

/-- Skips characters of a class that holds no line breaks. -/
def skipWhile (f : Char → Bool) (p : Place) (cs : List Char) : Place × List Char :=
  (p.forward (cs.takeWhile f).length, cs.dropWhile f)

end FormLayout.Yaml
