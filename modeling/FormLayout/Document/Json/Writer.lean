import FormLayout.Document.Value
import FormLayout.Text.Pieces
/-!
The JSON text of a value, compact or indented.
-/

namespace FormLayout.Json

def floatFormat : FloatFormat := ⟨-5, 15, true⟩

def number : Number → String
  | .integer n => toString n
  | .float x => floatFormat.write x

def hexDigit (n : Nat) : Char := Char.ofNat (if n < 10 then 48 + n else 87 + n)

/-- How a character stands between the quotes. -/
def escape (c : Char) : List Char :=
  if c = '"' then ['\\', '"']
  else if c = '\\' then ['\\', '\\']
  else if c = '\n' then ['\\', 'n']
  else if c = '\r' then ['\\', 'r']
  else if c = '\t' then ['\\', 't']
  else if c = '\x08' then ['\\', 'b']
  else if c = '\x0c' then ['\\', 'f']
  else if c.toNat < 0x20 then
    ['\\', 'u', '0', '0', hexDigit (c.toNat / 16), hexDigit (c.toNat % 16)]
  else [c]

def quote (s : String) : String := String.ofList ('"' :: s.toList.flatMap escape ++ ['"'])

mutual

/-- The text without spaces. -/
def compact : Value → String
  | .null => "null"
  | .bool b => if b then "true" else "false"
  | .number n => number n
  | .string s => quote s
  | .array xs => "[" ++ compactItems xs ++ "]"
  | .object m => "\x7b" ++ compactFields m ++ "\x7d"

def compactItems : List Value → String
  | [] => ""
  | [x] => compact x
  | x :: y :: xs => compact x ++ "," ++ compactItems (y :: xs)

def compactFields : List (String × Value) → String
  | [] => ""
  | [(k, x)] => quote k ++ ":" ++ compact x
  | (k, x) :: f :: rest => quote k ++ ":" ++ compact x ++ "," ++ compactFields (f :: rest)

end

def newline (depth : Nat) : String := String.ofList ('\n' :: List.replicate (2 * depth) ' ')

mutual

/-- The text with one item or field a line, two spaces deeper than the enclosing one. -/
def indented (depth : Nat) : Value → String
  | .null => "null"
  | .bool b => if b then "true" else "false"
  | .number n => number n
  | .string s => quote s
  | .array [] => "[]"
  | .array (x :: xs) => "[" ++ indentedItems (depth + 1) (x :: xs) ++ newline depth ++ "]"
  | .object [] => "\x7b\x7d"
  | .object (f :: fs) => "\x7b" ++ indentedFields (depth + 1) (f :: fs) ++ newline depth ++ "\x7d"

def indentedItems (depth : Nat) : List Value → String
  | [] => ""
  | [x] => newline depth ++ indented depth x
  | x :: y :: xs => newline depth ++ indented depth x ++ "," ++ indentedItems depth (y :: xs)

def indentedFields (depth : Nat) : List (String × Value) → String
  | [] => ""
  | [(k, x)] => newline depth ++ quote k ++ ": " ++ indented depth x
  | (k, x) :: f :: rest =>
    newline depth ++ quote k ++ ": " ++ indented depth x ++ "," ++ indentedFields depth (f :: rest)

end

def pretty (v : Value) : String := indented 0 v

end FormLayout.Json
