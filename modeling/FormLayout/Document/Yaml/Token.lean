import FormLayout.Document.Yaml.Scalar
import FormLayout.Document.Yaml.Tag
import FormLayout.Document.Yaml.Text
/-!
The tokens of a YAML text. Blocks have no marks of their own: their begin and end follow from the
columns of the text.

Whether a word is a key shows only at the colon behind it. So the places where a key may have begun
are kept, one for each pair of open brackets and one outside of these.
-/

namespace FormLayout.Yaml

inductive Token where
  | directive (d : Directive)
  | documentStart
  | documentEnd
  | blockSequence
  | blockMapping
  | blockEnd
  | flowSequence
  | flowSequenceEnd
  | flowMapping
  | flowMappingEnd
  | blockEntry
  | flowEntry
  | key
  | value
  | reference (name : String)
  | anchor (name : String)
  | tag (t : Tag)
  | scalar (style : ScalarStyle) (text : String)
  deriving DecidableEq, Repr

/-- Where a key may have begun: the number of tokens in front of it, its place, and whether nothing
but a key can stand there. -/
structure KeyStart where
  tokens : Nat
  place : Place
  isRequired : Bool

/-- A text that is partly cut into tokens, which are in reverse. The open blocks are given by their
columns, the innermost first, and the starts of keys by the open brackets, the innermost first. -/
structure Scan where
  place : Place
  rest : List Char
  tokens : List Token
  blocks : List Nat
  outerKey : Option KeyStart
  innerKeys : List (Option KeyStart)
  keyAllowed : Bool

namespace Scan

/-- A mark of the byte order in front of the text counts as a character of the first line. -/
def start (cs : List Char) : Scan :=
  match cs with
  | '\ufeff' :: rest => ⟨⟨1, 0, 1⟩, rest, [], [], none, [], true⟩
  | _ => ⟨.start, cs, [], [], none, [], true⟩

def inFlow (s : Scan) : Bool := !s.innerKeys.isEmpty

def keyStart? (s : Scan) : Option KeyStart :=
  match s.innerKeys with
  | [] => s.outerKey
  | k :: _ => k

def setKeyStart (s : Scan) (k : Option KeyStart) : Scan :=
  match s.innerKeys with
  | [] => { s with outerKey := k }
  | _ :: rest => { s with innerKeys := k :: rest }

def push (s : Scan) (t : Token) : Scan := { s with tokens := t :: s.tokens }

/-- Puts tokens behind the first ones of the given number. -/
def insert (s : Scan) (count : Nat) (ts : List Token) : Scan :=
  let later := s.tokens.length - count
  { s with tokens := s.tokens.take later ++ ts.reverse ++ s.tokens.drop later }

/-- Goes on behind some characters of the line. -/
def skip (s : Scan) (n : Nat) : Scan :=
  { s with place := s.place.forward n, rest := s.rest.drop n }

/-- Goes on behind the line break that ends the line, if there is one. -/
def skipBreak (s : Scan) : Scan :=
  match s.rest with
  | c :: rest => { s with place := s.place.after c, rest }
  | [] => s

/-- Spaces, comments and line breaks. Outside of brackets a key may begin on a new line, but not
behind a tab. -/
def skipGap : (inFlow keyAllowed inComment : Bool) → Place → List Char → Bool × Place × List Char
  | _, keyAllowed, _, p, [] => (keyAllowed, p, [])
  | inFlow, keyAllowed, inComment, p, c :: rest =>
    if isBreak c then skipGap inFlow (keyAllowed || !inFlow) false (p.after c) rest
    else if inComment || c = ' ' || (c = '\t' && (inFlow || !keyAllowed)) then
      skipGap inFlow keyAllowed inComment (p.after c) rest
    else if c = '#' then skipGap inFlow keyAllowed true (p.after c) rest
    else (keyAllowed, p, c :: rest)

def gap (s : Scan) : Scan :=
  let (keyAllowed, place, rest) := skipGap s.inFlow s.keyAllowed false s.place s.rest
  { s with keyAllowed, place, rest }

/-- A key stands on one line and has at most 1024 characters. -/
def isStale (p : Place) (k : KeyStart) : Bool :=
  k.place.line < p.line || k.place.index + 1024 < p.index

/-- Gives the key start up unless it still may become one; none if it must. -/
def fresh? (p : Place) : Option KeyStart → Option (Option KeyStart)
  | none => some none
  | some k => if !isStale p k then some (some k) else if k.isRequired then none else some none

def dropStale? (s : Scan) : Option Scan := do
  let outerKey ← fresh? s.place s.outerKey
  let innerKeys ← s.innerKeys.mapM (fresh? s.place)
  return { s with outerKey, innerKeys }

/-- What stands here is no key. -/
def dropKey? (s : Scan) : Option Scan :=
  match s.keyStart? with
  | some k => if k.isRequired then none else some (s.setKeyStart none)
  | none => some s

/-- What begins here may be a key, if one is allowed here. -/
def markKey? (s : Scan) : Option Scan :=
  if s.keyAllowed then do
    let s ← s.dropKey?
    let required := !s.inFlow && s.blocks.head? = some s.place.column
    return s.setKeyStart (some ⟨s.tokens.length, s.place, required⟩)
  else some s

/-- Ends the blocks whose columns are behind the given one, or all blocks. -/
def endBlocks (column : Option Nat) (s : Scan) : Scan :=
  if s.inFlow then s
  else
    let isOpen (block : Nat) : Bool := (column.map fun column => decide (block ≤ column)).getD false
    let ended := s.blocks.takeWhile fun block => !isOpen block
    { s with
      tokens := List.replicate ended.length .blockEnd ++ s.tokens
      blocks := s.blocks.drop ended.length }

/-- Whether a new block begins at a column. -/
def opensBlock (s : Scan) (column : Nat) : Bool :=
  !s.inFlow && match s.blocks with
    | [] => true
    | block :: _ => block < column

/-- Begins a block here if the open ones stand in front of it. -/
def openBlock (t : Token) (s : Scan) : Scan :=
  if s.opensBlock s.place.column then
    { s.push t with blocks := s.place.column :: s.blocks }
  else s

/-- The mark of an item or of a key. Outside of brackets it may begin a block. -/
def entry? (t block : Token) (keyAllowed : Bool) (s : Scan) : Option Scan :=
  if !s.inFlow && !s.keyAllowed then none
  else do
    let s ← (s.openBlock block).dropKey?
    return { (s.push t).skip 1 with keyAllowed }

/-- The colon of a value. What began at the start of a key is one. -/
def value? (s : Scan) : Option Scan :=
  match s.keyStart? with
  | some k =>
    let opens := s.opensBlock k.place.column
    let s := (s.insert k.tokens (if opens then [.blockMapping, .key] else [.key])).setKeyStart none
    let blocks := if opens then k.place.column :: s.blocks else s.blocks
    some { (s.push .value).skip 1 with blocks, keyAllowed := false }
  | none =>
    if !s.inFlow && !s.keyAllowed then none
    else some { ((s.openBlock .blockMapping).push .value).skip 1 with keyAllowed := !s.inFlow }

def openBracket? (t : Token) (s : Scan) : Option Scan := do
  let s ← s.markKey?
  return { (s.push t).skip 1 with innerKeys := none :: s.innerKeys, keyAllowed := true }

def closeBracket? (t : Token) (s : Scan) : Option Scan := do
  let s ← s.dropKey?
  return { (s.push t).skip 1 with innerKeys := s.innerKeys.drop 1, keyAllowed := false }

def comma? (s : Scan) : Option Scan := do
  let s ← s.dropKey?
  return { (s.push .flowEntry).skip 1 with keyAllowed := true }

/-- A line of its own: all blocks end in front of it. -/
def separate? (s : Scan) : Option Scan := do
  let s ← (s.endBlocks none).dropKey?
  return { s with keyAllowed := false }

def documentMark? (t : Token) (s : Scan) : Option Scan := do
  return ((← s.separate?).push t).skip 3

def directiveLine? (s : Scan) : Option Scan := do
  let s ← s.separate?
  let (d, rest) ← directive? (s.rest.drop 1)
  let rest ← endDirective? rest
  return ((s.push (.directive d)).skip (s.rest.length - rest.length)).skipBreak

/-- A word behind a mark, in front of a node or instead of one. -/
def property? (token : List Char → Option (Token × List Char)) (s : Scan) : Option Scan := do
  let s ← s.markKey?
  let (t, rest) ← token (s.rest.drop 1)
  return { (s.push t).skip (s.rest.length - rest.length) with keyAllowed := false }

def tagToken? (inFlow : Bool) (cs : List Char) : Option (Token × List Char) := do
  let (t, rest) ← tag? cs
  if isGap rest || (inFlow && rest.head? = some ',') then some (.tag t, rest) else none

def scalar (style : ScalarStyle) (keyAllowed : Bool) (s : Scan) (x : Passage) : Scan :=
  { s.push (.scalar style (String.ofList x.text)) with
    place := x.place
    rest := x.rest
    keyAllowed }

/-- A scalar in quotes, or one without them, behind which a line may have ended. -/
def flowScalar? (style : ScalarStyle) (read : Scan → Option Passage) (s : Scan) : Option Scan := do
  let s ← s.markKey?
  let x ← read s
  return s.scalar style x.gap.isBroken x

def blockScalar? (style : ScalarStyle) (s : Scan) : Option Scan := do
  let s ← s.dropKey?
  let x ← block? (style = .folded) s.blocks.head? (s.place.forward 1) (s.rest.drop 1)
  return s.scalar style true x

/-- The characters that may not start a text without quotes, whatever follows. -/
def isIndicator (c : Char) : Bool := "-?:,[]\x7b\x7d#&*!|>\x27\"%@\x60".toList.contains c

def startsPlain (inFlow : Bool) (c : Char) (rest : List Char) : Bool :=
  (c ≠ '\t' && !isIndicator c) || c = '-' || (!inFlow && (c = '?' || c = ':') && !isGap rest)

/-- The next token, with those that end or begin blocks in front of it. -/
def token? (c : Char) (rest : List Char) (s : Scan) : Option Scan :=
  let atMargin := s.place.column = 0
  if atMargin && c = '%' then s.directiveLine?
  else if atMargin && isDocumentMark (c :: rest) then
    s.documentMark? (if c = '-' then .documentStart else .documentEnd)
  else if c = '[' then s.openBracket? .flowSequence
  else if c = '{' then s.openBracket? .flowMapping
  else if c = ']' then s.closeBracket? .flowSequenceEnd
  else if c = '}' then s.closeBracket? .flowMappingEnd
  else if c = ',' then s.comma?
  else if c = '-' && isGap rest then s.entry? .blockEntry .blockSequence true
  else if c = '?' && (s.inFlow || isGap rest) then s.entry? .key .blockMapping (!s.inFlow)
  else if c = ':' && (s.inFlow || isGap rest) then s.value?
  else if c = '*' then
    s.property? fun cs => (anchorName? cs).map fun (name, rest) => (.reference name, rest)
  else if c = '&' then
    s.property? fun cs => (anchorName? cs).map fun (name, rest) => (.anchor name, rest)
  else if c = '!' then s.property? (tagToken? s.inFlow)
  else if c = '|' && !s.inFlow then s.blockScalar? .literal
  else if c = '>' && !s.inFlow then s.blockScalar? .folded
  else if c = '\x27' then
    s.flowScalar? .quoted fun s => singleQuoted? [] .none (s.place.forward 1) rest
  else if c = '"' then
    s.flowScalar? .quoted fun s => doubleQuoted? [] .none (s.place.forward 1) rest
  else if startsPlain s.inFlow c rest then
    let least := (s.blocks.head?.map (· + 1)).getD 0
    s.flowScalar? .plain fun s => plain? s.inFlow least [] .none s.place s.rest
  else none

/-- Cuts the text into tokens, in as many steps as there are characters and one. -/
def run? : Nat → Scan → Option (List Token)
  | 0, _ => none
  | n + 1, s => do
    let s ← s.gap.dropStale?
    let s := s.endBlocks (some s.place.column)
    match s.rest with
    | [] => return (← (s.endBlocks none).dropKey?).tokens.reverse
    | c :: rest => run? n (← s.token? c rest)

end Scan

/-- The tokens of a text. -/
def Token.ofText? (s : String) : Option (List Token) :=
  if s.toList.all isAllowed then
    let cs := normalBreaks s.toList
    (Scan.start cs).run? (cs.length + 1)
  else none

end FormLayout.Yaml
