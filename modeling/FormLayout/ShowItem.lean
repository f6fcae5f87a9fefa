import FormLayout.Text.Blank
import FormLayout.Text.Pieces
/-!
The show item grammar: items between commas, parts between semicolons, blanks around both ignored,
empty items dropped. An item whose first part stands between double dashes is special, every other
one names a field.
-/

namespace FormLayout

/-- The parts of one item. -/
abbrev Item := List String

/-- What stands between the dashes of a special item. -/
inductive SpecialToken where
  | tab
  | palette
  | lineBreak
  | unknown (name : String)
  deriving DecidableEq, Repr

namespace SpecialToken

def text : SpecialToken → String
  | .tab => "div"
  | .palette => "palette"
  | .lineBreak => "linebreak"
  | .unknown name => name

/-- The first part of a special item. -/
def dashed (t : SpecialToken) : String := "--" ++ t.text ++ "--"

/-- The case of ASCII letters does not count. -/
def ofName (name : String) : SpecialToken :=
  let name := Text.lower name
  if name = "div" then .tab
  else if name = "palette" then .palette
  else if name = "linebreak" then .lineBreak
  else .unknown name

/-- The token of a part such as `--div--`, if it has one. -/
def ofPart? (part : String) : Option SpecialToken :=
  match Text.trimChars part.toList with
  | '-' :: '-' :: rest =>
    match rest.reverse with
    | '-' :: '-' :: inner => some (ofName (String.ofList inner.reverse))
    | _ => none
  | _ => none

end SpecialToken

/-- What an item stands for. -/
inductive ItemKind where
  | special (token : SpecialToken)
  | field (id : String)
  deriving DecidableEq, Repr

namespace Item

def first (item : Item) : String := item.headD ""

def kind (item : Item) : ItemKind :=
  match SpecialToken.ofPart? item.first with
  | some token => .special token
  | none => .field item.first

def text (item : Item) : String := Text.join ';' item

/-- Drops the empty parts at the end, but never the first part. -/
def trimEnd : Item → Item
  | [] => []
  | part :: rest => part :: (rest.reverse.dropWhile (· = "")).reverse

end Item

namespace ShowItem

def parse (s : String) : List Item :=
  ((Text.pieces ',' s.toList).map Text.trimChars).filterMap fun segment =>
    if segment.isEmpty then none
    else some ((Text.pieces ';' segment).map fun part => String.ofList (Text.trimChars part))

def text (items : List Item) : String := Text.join ',' (items.map Item.text)

/-- The same layout without blanks and empty parts at the end of items. -/
def canonical (s : String) : String := text ((parse s).map Item.trimEnd)

end ShowItem

end FormLayout
