import FormLayout.Document.Json.Tree
import FormLayout.Number.Radix
/-!
The tokens of a JSON text.
-/

namespace FormLayout.Json

inductive Token where
  | openArray
  | closeArray
  | openObject
  | closeObject
  | comma
  | colon
  | scalar (t : Tree)

/-- A string as far as it is read: its characters in reverse, unless half of a surrogate pair was
alone among them, and the first half of a pair that is not complete yet. -/
structure Quoted where
  rev : Option (List Char)
  half : Option Nat

namespace Quoted

def start : Quoted := ⟨some [], none⟩

def broken : Quoted := ⟨none, none⟩

def push (q : Quoted) (c : Char) : Quoted :=
  if q.half.isSome then broken else { q with rev := q.rev.map (c :: ·) }

/-- Adds an escaped unit of sixteen bits. Halves of surrogate pairs stand for nothing alone. -/
def pushUnit (q : Quoted) (value : Nat) : Quoted :=
  let isLow := 0xDC00 ≤ value && value ≤ 0xDFFF
  match q.half with
  | some h =>
    if isLow then
      Quoted.push ⟨q.rev, none⟩ (Char.ofNat (0x10000 + (h - 0xD800) * 0x400 + (value - 0xDC00)))
    else broken
  | none =>
    if 0xD800 ≤ value && value ≤ 0xDBFF then ⟨q.rev, some value⟩
    else if isLow then broken
    else q.push (Char.ofNat value)

def text (q : Quoted) : Option String :=
  if q.half.isSome then none else q.rev.map fun rev => String.ofList rev.reverse

end Quoted

/-- Where the scan stands: between tokens, in a word, or in a string, in which an escape may have
begun. The characters of a word are in reverse. -/
inductive Scan where
  | between
  | word (rev : List Char)
  | text (q : Quoted)
  | escaped (q : Quoted)
  | unicode (q : Quoted) (value left : Nat)

def isSpace (c : Char) : Bool := c = ' ' || c = '\n' || c = '\t' || c = '\r'

def mark? (c : Char) : Option Token :=
  if c = '[' then some .openArray
  else if c = ']' then some .closeArray
  else if c = '{' then some .openObject
  else if c = '}' then some .closeObject
  else if c = ',' then some .comma
  else if c = ':' then some .colon
  else none

def word? (rev : List Char) : Option Tree :=
  match rev.reverse with
  | ['n', 'u', 'l', 'l'] => some .null
  | ['t', 'r', 'u', 'e'] => some (.bool true)
  | ['f', 'a', 'l', 's', 'e'] => some (.bool false)
  | cs => (Literal.number? cs).map .number

def escaped? (c : Char) : Option Char :=
  if c = '"' || c = '\\' || c = '/' then some c
  else if c = 'n' then some '\n'
  else if c = 'r' then some '\r'
  else if c = 't' then some '\t'
  else if c = 'b' then some '\x08'
  else if c = 'f' then some '\x0c'
  else none

def startToken (c : Char) : Scan × List Token :=
  if isSpace c then (.between, [])
  else if c = '"' then (.text .start, [])
  else match mark? c with
    | some t => (.between, [t])
    | none => (.word [c], [])

def Scan.step : Scan → Char → Option (Scan × List Token)
  | .between, c => some (startToken c)
  | .word rev, c =>
    if isSpace c || c = '"' || (mark? c).isSome then
      (word? rev).map fun t => ((startToken c).1, .scalar t :: (startToken c).2)
    else some (.word (c :: rev), [])
  | .text q, c =>
    if c = '"' then some (.between, [.scalar (.string q.text)])
    else if c = '\\' then some (.escaped q, [])
    else if c.toNat < 0x20 then none
    else some (.text (q.push c), [])
  | .escaped q, c =>
    if c = 'u' then some (.unicode q 0 4, [])
    else (escaped? c).map fun e => (.text (q.push e), [])
  | .unicode q value left, c =>
    (Radix.digit? 16 c).map fun d =>
      if left ≤ 1 then (.text (q.pushUnit (16 * value + d)), [])
      else (.unicode q (16 * value + d) (left - 1), [])

def Scan.finish : Scan → Option (List Token)
  | .between => some []
  | .word rev => (word? rev).map fun t => [.scalar t]
  | _ => none

def tokens (s : Scan) (rev : List Token) : List Char → Option (List Token)
  | [] => s.finish.map fun last => rev.reverse ++ last
  | c :: cs =>
    match s.step c with
    | none => none
    | some (s, out) => tokens s (out.reverse ++ rev) cs

/-- The tokens of a text. -/
def Token.ofText? (s : String) : Option (List Token) := tokens .between [] s.toList

end FormLayout.Json
