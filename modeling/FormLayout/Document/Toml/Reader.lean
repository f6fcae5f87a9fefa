import FormLayout.Document.Toml.Scalar
import FormLayout.Document.Toml.Text
/-!
Reading TOML: lines with keys and values, below headers of tables.
-/

namespace FormLayout.Toml

/-- What follows spaces, line breaks and comments. None if a comment has a control character. -/
def afterGap? : (inComment : Bool) → List Char → Option (List Char)
  | _, [] => some []
  | _, '\n' :: rest => afterGap? false rest
  | _, '\r' :: '\n' :: rest => afterGap? false rest
  | true, c :: rest => if isControl c then none else afterGap? true rest
  | false, c :: rest =>
    if isSpace c then afterGap? false rest
    else if c = '#' then afterGap? true rest
    else some (c :: rest)

/-- The end of a line, or a comment in front of it; none when something else stands there. -/
def lineEnd? (cs : List Char) : Option (List Char) :=
  let rest := cs.dropWhile isSpace
  if rest.isEmpty || rest.head? = some '#' || (lineBreak? rest).isSome then some rest else none

def isKeyChar (c : Char) : Bool := c.isAlphanum || c = '_' || c = '-'

/-- One name of a key, and what follows it. -/
def name? (cs : List Char) : Option (String × List Char) :=
  let name := cs.takeWhile isKeyChar
  if name.isEmpty then text? cs false else some (String.ofList name, cs.dropWhile isKeyChar)

/-- So many names may be in a key, and so many brackets and braces in one another. -/
def depthLimit : Nat := 80

/-- The names of a key with dots between them, and what follows. There are no more names than the
given number. -/
def key? : Nat → List Char → Option (List String × List Char)
  | 0, _ => none
  | n + 1, cs => do
    let (name, rest) ← name? (cs.dropWhile isSpace)
    match rest.dropWhile isSpace with
    | '.' :: rest => (key? n rest).map fun (names, rest) => (name :: names, rest)
    | rest => some ([name], rest)

def endsWord (c : Char) : Bool := " \t\r\n,=#[]\x7b\x7d\"\x27".toList.contains c

/-- A word and what follows it. A date and a time may have a space between them. -/
def splitWord (cs : List Char) : List Char × List Char :=
  let word := cs.takeWhile fun c => !endsWord c
  match cs.dropWhile fun c => !endsWord c with
  | ' ' :: c :: rest =>
    if isDate word && c.isDigit then
      (word ++ ' ' :: (c :: rest).takeWhile fun c => !endsWord c,
        (c :: rest).dropWhile fun c => !endsWord c)
    else (word, ' ' :: c :: rest)
  | rest => (word, rest)

mutual

/-- A value and what follows it, with so many levels of brackets and braces in it at most. -/
def value? : Nat → (depth : Nat) → List Char → Option (Node × List Char)
  | 0, _, _ => none
  | n + 1, depth, cs =>
    match cs, depth with
    | '[' :: rest, depth + 1 => items? n depth [] rest
    | '{' :: rest, depth + 1 => entries? n depth (.inline, []) rest
    | _, _ =>
      match text? cs true with
      | some (s, rest) => some (.text s, rest)
      | none =>
        let (word, rest) := splitWord cs
        (word? word).map fun value => (value, rest)

/-- The items of a list, up to its bracket. -/
def items? : Nat → (depth : Nat) → (rev : List Node) → List Char → Option (Node × List Char)
  | 0, _, _, _ => none
  | n + 1, depth, rev, cs => do
    match ← afterGap? false cs with
    | ']' :: rest => return (.list rev.reverse, rest)
    | rest =>
      let (item, rest) ← value? n depth rest
      match ← afterGap? false rest with
      | ',' :: rest => items? n depth (item :: rev) rest
      | ']' :: rest => return (.list (item :: rev).reverse, rest)
      | _ => none

/-- The entries of a table in braces, up to the closing one. -/
def entries? : Nat → (depth : Nat) → Table → List Char → Option (Node × List Char)
  | 0, _, _, _ => none
  | n + 1, depth, t, cs => do
    match ← afterGap? false cs with
    | '}' :: rest => return (.table .inline t.2, rest)
    | rest =>
      match ← key? depthLimit rest with
      | (names, '=' :: rest) =>
        let (value, rest) ← value? n depth (rest.dropWhile isSpace)
        let t ← t.add? names value
        match ← afterGap? false rest with
        | ',' :: rest => entries? n depth t rest
        | '}' :: rest => return (.table .inline t.2, rest)
        | _ => none
      | _ => none

end

/-- Reads the lines below a header into the table of the whole document. -/
def lines? : Nat → (header : List String) → Table → List Char → Option Table
  | 0, _, _, _ => none
  | n + 1, header, t, cs => do
    match ← afterGap? false cs with
    | [] => return t
    | '[' :: '[' :: rest =>
      match ← key? depthLimit rest with
      | (names, ']' :: ']' :: rest) => lines? n names (← t.beginNext? names) (← lineEnd? rest)
      | _ => none
    | '[' :: rest =>
      match ← key? depthLimit rest with
      | (names, ']' :: rest) => lines? n names (← t.begin? names) (← lineEnd? rest)
      | _ => none
    | rest =>
      match ← key? depthLimit rest with
      | (names, '=' :: rest) =>
        let rest := rest.dropWhile isSpace
        let (value, rest) ← value? (2 * rest.length + 2) depthLimit rest
        let t ← t.change? false (fun t => t.add? names value) header
        lines? n header t (← lineEnd? rest)
      | _ => none

/-- Reads a text, which may have a mark of the byte order in front. -/
def read? (s : String) : Option (Entries Node) :=
  let cs := match s.toList with
    | '\ufeff' :: rest => rest
    | cs => cs
  (lines? (cs.length + 1) [] (.headed, []) cs).map Prod.snd

end FormLayout.Toml
