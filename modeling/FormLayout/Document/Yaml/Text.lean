import FormLayout.Document.Yaml.Gap
import FormLayout.Number.Radix
/-!
The texts of scalars: without quotes, in single or double quotes, and line by line below a mark.
-/

namespace FormLayout.Yaml

/-- A text, the gap behind it, and what follows. -/
structure Passage where
  text : List Char
  gap : Gap
  place : Place
  rest : List Char

/-- Whether a colon ends a text without quotes, or brackets around it do. -/
def endsPlain (inFlow : Bool) (c : Char) (rest : List Char) : Bool :=
  (c = ':' && isGap rest) || (inFlow && ",[]\x7b\x7d".toList.contains c)

/-- In brackets a colon in the text may not stand in front of a mark. -/
def isStrayColon (c : Char) (rest : List Char) : Bool :=
  c = ':' && match rest with
    | d :: _ => ",?[]\x7b\x7d".toList.contains d
    | [] => false

/-- A text without quotes, word by word. It goes on at the least column or behind it, unless it
stands in brackets, and ends at a comment, a mark between documents or a mark of the structure. -/
def plain? (inFlow : Bool) (least : Nat) :
    (rev : List Char) → Gap → Place → List Char → Option Passage
  | rev, gap, p, [] => some ⟨rev.reverse, gap, p, []⟩
  | rev, gap, p, c :: rest =>
    if isSpace c then
      if gap.isBroken && p.column < least && c = '\t' then none
      else plain? inFlow least rev (gap.space c) (p.after c) rest
    else if isBreak c then plain? inFlow least rev (gap.lineBreak c) (p.after c) rest
    else
      let ended := !gap.isNone && ((!inFlow && p.column < least) || c = '#' ||
        (p.column = 0 && isDocumentMark (c :: rest)))
      if !ended && inFlow && isStrayColon c rest then none
      else if ended || endsPlain inFlow c rest then some ⟨rev.reverse, gap, p, c :: rest⟩
      else plain? inFlow least (c :: (gap.fold.reverse ++ rev)) .none (p.after c) rest

/-- The text behind a single quote up to the next one. A quote is written twice. -/
def singleQuoted? : (rev : List Char) → Gap → Place → List Char → Option Passage
  | _, _, _, [] => none
  | rev, gap, p, c :: rest =>
    if isSpace c then singleQuoted? rev (gap.space c) (p.after c) rest
    else if isBreak c then singleQuoted? rev (gap.lineBreak c) (p.after c) rest
    else if p.column = 0 && isDocumentMark (c :: rest) then none
    else
      let rev := gap.fold.reverse ++ rev
      if c = '\x27' then
        match rest with
        | '\x27' :: rest => singleQuoted? ('\x27' :: rev) .none (p.forward 2) rest
        | _ => some ⟨rev.reverse, .none, p.after c, rest⟩
      else singleQuoted? (c :: rev) .none (p.after c) rest

def escaped? (c : Char) : Option Char :=
  match c with
  | '0' => some '\x00'
  | 'a' => some '\x07'
  | 'b' => some '\x08'
  | 't' | '\t' => some '\t'
  | 'n' => some '\n'
  | 'v' => some '\x0b'
  | 'f' => some '\x0c'
  | 'r' => some '\r'
  | 'e' => some '\x1b'
  | ' ' | '"' | '/' | '\\' => some c
  | 'N' => some '\u0085'
  | '_' => some '\u00a0'
  | 'L' => some '\u2028'
  | 'P' => some '\u2029'
  | _ => none

/-- The text behind a double quote up to the next one. An escaped line break stands for nothing. -/
def doubleQuoted? : (rev : List Char) → Gap → Place → List Char → Option Passage
  | _, _, _, [] => none
  | rev, gap, p, c :: rest =>
    if isSpace c then doubleQuoted? rev (gap.space c) (p.after c) rest
    else if isBreak c then doubleQuoted? rev (gap.lineBreak c) (p.after c) rest
    else if p.column = 0 && isDocumentMark (c :: rest) then none
    else
      let rev := gap.fold.reverse ++ rev
      if c = '"' then some ⟨rev.reverse, .none, p.after c, rest⟩
      else if c = '\\' then
        match rest with
        | 'x' :: a :: b :: rest =>
          match Radix.hexCharacter? [a, b] with
          | some e => doubleQuoted? (e :: rev) .none (p.forward 4) rest
          | none => none
        | 'u' :: a :: b :: c :: d :: rest =>
          match Radix.hexCharacter? [a, b, c, d] with
          | some e => doubleQuoted? (e :: rev) .none (p.forward 6) rest
          | none => none
        | 'U' :: a :: b :: c :: d :: e :: f :: g :: h :: rest =>
          match Radix.hexCharacter? [a, b, c, d, e, f, g, h] with
          | some e => doubleQuoted? (e :: rev) .none (p.forward 10) rest
          | none => none
        | e :: rest =>
          if isBreak e then doubleQuoted? rev (.broken none []) ((p.after c).after e) rest
          else
            match escaped? e with
            | some e => doubleQuoted? (e :: rev) .none (p.forward 2) rest
            | none => none
        | [] => none
      else doubleQuoted? (c :: rev) .none (p.after c) rest

/-- Which of the line breaks at its end belong to a text that is written line by line. -/
inductive Chomp where
  | strip
  | clip
  | keep
  deriving DecidableEq, Repr

def chomp? (c : Char) : Option Chomp :=
  if c = '-' then some .strip else if c = '+' then some .keep else none

def depth? (c : Char) : Option Nat :=
  if c.isDigit && c ≠ '0' then some (c.toNat - '0'.toNat) else none

/-- What stands behind the mark of such a text, in any order: which line breaks are kept, and how
deep the lines are. -/
def blockHeader : List Char → Chomp × Option Nat × List Char
  | [] => (.clip, none, [])
  | c :: rest =>
    match chomp? c, depth? c with
    | some chomp, _ =>
      match rest with
      | d :: more => if (depth? d).isSome then (chomp, depth? d, more) else (chomp, none, rest)
      | [] => (chomp, none, rest)
    | none, some depth =>
      match rest with
      | d :: more => ((chomp? d).getD .clip, some depth, if (chomp? d).isSome then more else rest)
      | [] => (.clip, some depth, rest)
    | none, none => (.clip, none, c :: rest)

/-- The empty lines in front of a text of lines: their breaks, the column of the deepest line, and
what follows. None if a tab stands in the indentation. -/
def emptyLines? : (rev : List Char) → (deepest : Nat) → Place → List Char →
    Option (List Char × Nat × Place × List Char)
  | rev, deepest, p, [] => some (rev.reverse, max deepest p.column, p, [])
  | rev, deepest, p, c :: rest =>
    if c = ' ' then emptyLines? rev deepest (p.after c) rest
    else if c = '\t' then none
    else if isBreak c then emptyLines? (c :: rev) (max deepest p.column) (p.after c) rest
    else some (rev.reverse, max deepest p.column, p, c :: rest)

/-- A text of lines as far as it is read: its characters in reverse, the line break behind the last
line, those of the empty lines after it, and whether that line began with a space. -/
structure Lines where
  rev : List Char
  last : Option Char
  more : List Char
  deeper : Bool

/-- Joins a line to those above it, by what stands between them. Folding makes a single line break
a space and drops the first one of several, unless one of the two lines begins with a space. -/
def Lines.join (folds : Bool) (l : Lines) (c : Char) : Lines :=
  let last :=
    if folds && l.last = some '\n' && !l.deeper && !isSpace c then
      if l.more.isEmpty then [' '] else []
    else l.last.toList
  ⟨c :: ((last ++ l.more).reverse ++ l.rev), none, [], isSpace c⟩

/-- The lines at a column or behind it, and what follows them. -/
def lines? (folds : Bool) (column : Nat) :
    (inLine : Bool) → Lines → Place → List Char → Option (Lines × Place × List Char)
  | _, l, p, [] => some (l, p, [])
  | true, l, p, c :: rest =>
    if isBreak c then lines? folds column false { l with last := some c } (p.after c) rest
    else lines? folds column true { l with rev := c :: l.rev } (p.after c) rest
  | false, l, p, c :: rest =>
    if p.column < column && c = ' ' then lines? folds column false l (p.after c) rest
    else if p.column < column && c = '\t' then none
    else if isBreak c then
      lines? folds column false { l with more := l.more ++ [c] } (p.after c) rest
    else if p.column < column then some (l, p, c :: rest)
    else lines? folds column true (l.join folds c) (p.after c) rest

def Lines.text (chomp : Chomp) (l : Lines) : List Char :=
  l.rev.reverse ++ (if chomp = .strip then [] else l.last.toList) ++
    (if chomp = .keep then l.more else [])

/-- The text below a bar or an angle, whose header follows. The enclosing block stands at the given
column, if any. -/
def block? (folds : Bool) (outer : Option Nat) (p : Place) (cs : List Char) : Option Passage := do
  let (chomp, depth, header) := blockHeader cs
  let line := header.dropWhile isSpace
  let line := if line.head? = some '#' then line.dropWhile fun c => !isBreak c else line
  let least := max 1 ((outer.map (· + 1)).getD 0)
  match line with
  | [] => some ⟨[], .none, p.forward cs.length, []⟩
  | c :: rest =>
    if !isBreak c then none
    else
      let p := (p.forward (cs.length - line.length)).after c
      let (more, column, p, rest) ← match depth with
        | some n => some ([], outer.getD 0 + n, p, rest)
        | none => do
          let (more, deepest, p, rest) ← emptyLines? [] 0 p rest
          some (more, max least deepest, p, rest)
      let (l, p, rest) ← lines? folds column false ⟨[], none, more, false⟩ p rest
      some ⟨l.text chomp, .broken none [], p, rest⟩

end FormLayout.Yaml
