import FormLayout.Document.Value
import FormLayout.Error
import FormLayout.ShowItem
/-!
Describing the entries of a show item, each with its kind, id, label and parts.
-/

namespace FormLayout

/-- The description of an item. -/
structure Entry where
  kind : String
  id : Option String
  label : Option String
  parts : Item
  deriving DecidableEq, Repr

namespace Entry

/-- The second part, unless it is empty. -/
def labelOf (item : Item) : Option String := (item[1]?).filter (· ≠ "")

/-- A palette's name is the last part, and its label counts only if another part comes between. -/
def ofItem (item : Item) : Except Error Entry :=
  match item.kind with
  | .field id => .ok ⟨"field", some id, labelOf item, item⟩
  | .special .palette =>
    .ok ⟨"palette", if item.length ≤ 1 then none else item.getLast?,
      if item.length < 3 then none else labelOf item, item⟩
  | .special (.unknown token) => .error (.unknownSpecialItem token item.text)
  | .special token => .ok ⟨token.text, none, labelOf item, item⟩

def describe (showItem : String) : Except Error (List Entry) :=
  (ShowItem.parse showItem).mapM ofItem

def toValue (e : Entry) : Value :=
  .object <| [("kind", .string e.kind)] ++ (e.id.map fun s => ("id", Value.string s)).toList ++
    (e.label.map fun s => ("label", Value.string s)).toList ++ [("parts", .ofStrings e.parts)]

end Entry

end FormLayout
