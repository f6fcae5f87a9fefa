import FormLayout.Number.Radix
/-!
The texts of TOML in quotes, on one line or, in three quotes, over several lines.
-/

namespace FormLayout.Toml

def isSpace (c : Char) : Bool := c = ' ' || c = '\t'

def isControl (c : Char) : Bool := (c.toNat < 0x20 && c ≠ '\t') || c.toNat = 0x7F

/-- The character behind a backslash, and what follows it. -/
def escaped? : List Char → Option (Char × List Char)
  | 'x' :: a :: b :: rest => (Radix.hexCharacter? [a, b]).map fun c => (c, rest)
  | 'u' :: a :: b :: c :: d :: rest =>
    (Radix.hexCharacter? [a, b, c, d]).map fun c => (c, rest)
  | 'U' :: a :: b :: c :: d :: e :: f :: g :: h :: rest =>
    (Radix.hexCharacter? [a, b, c, d, e, f, g, h]).map fun c => (c, rest)
  | 'b' :: rest => some ('\x08', rest)
  | 't' :: rest => some ('\t', rest)
  | 'n' :: rest => some ('\n', rest)
  | 'f' :: rest => some ('\x0c', rest)
  | 'r' :: rest => some ('\r', rest)
  | 'e' :: rest => some ('\x1b', rest)
  | '"' :: rest => some ('"', rest)
  | '\\' :: rest => some ('\\', rest)
  | _ => none

/-- What follows a line break, if there is one. -/
def lineBreak? : List Char → Option (List Char)
  | '\n' :: rest => some rest
  | '\r' :: '\n' :: rest => some rest
  | _ => none

/-- What follows spaces and line breaks. -/
def dropGap : List Char → List Char
  | '\r' :: '\n' :: rest => dropGap rest
  | c :: rest => if isSpace c || c = '\n' then dropGap rest else c :: rest
  | [] => []

/-- What follows an escaped line break: it drops the spaces around it and empty lines below. -/
def escapedBreak? (cs : List Char) : Option (List Char) :=
  (lineBreak? (cs.dropWhile isSpace)).map dropGap

/-- The characters up to the closing quote, and what follows it. A long text ends at three quotes;
of more quotes there, up to two belong to the text. Only double quotes know escapes. -/
def quoted? (quote : Char) (isLong : Bool) :
    Nat → (rev : List Char) → List Char → Option (String × List Char)
  | 0, _, _ => none
  | _, _, [] => none
  | n + 1, rev, c :: rest =>
    if c = quote then
      let quotes := min 5 ((c :: rest).takeWhile (· = quote)).length
      if !isLong then some (String.ofList rev.reverse, rest)
      else if quotes < 3 then quoted? quote isLong n (c :: rev) rest
      else
        let text := rev.reverse ++ List.replicate (quotes - 3) quote
        some (String.ofList text, rest.drop (quotes - 1))
    else if c = '\\' && quote = '"' then
      match if isLong then escapedBreak? rest else none with
      | some rest => quoted? quote isLong n rev rest
      | none =>
        match escaped? rest with
        | some (e, rest) => quoted? quote isLong n (e :: rev) rest
        | none => none
    else
      match if isLong then lineBreak? (c :: rest) else none with
      | some rest => quoted? quote isLong n ('\n' :: rev) rest
      | none => if isControl c then none else quoted? quote isLong n (c :: rev) rest

/-- A text in quotes, and what follows it. A line break right behind three quotes does not count. -/
def text? (cs : List Char) (allowsLong : Bool) : Option (String × List Char) :=
  match cs with
  | a :: b :: c :: rest =>
    if a ≠ '"' && a ≠ '\x27' then none
    else if a = b && b = c then
      if allowsLong then quoted? a true cs.length [] ((lineBreak? rest).getD rest) else none
    else quoted? a false cs.length [] (b :: c :: rest)
  | a :: rest => if a = '"' || a = '\x27' then quoted? a false cs.length [] rest else none
  | [] => none

end FormLayout.Toml
