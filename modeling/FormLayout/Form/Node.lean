import FormLayout.Document.Value
import FormLayout.Form.Kind
/-!
The nodes of a form tree.
-/

namespace FormLayout

/-- The parts of an item after its leading token. Slot 0 is the label of every kind of node. -/
abbrev Slots := List String

namespace Slots

/-- Fills the slots missing before the given one with the empty text. -/
def put (slots : Slots) (index : Nat) (value : String) : Slots :=
  (slots ++ List.replicate (index + 1 - slots.length) "").set index value

/-- The label, unless it is empty. -/
def label? : Slots → Option String
  | [] => none
  | label :: _ => if label = "" then none else some label

end Slots

/-- What a node holds besides its place and slots. -/
inductive Content where
  | tab
  | palette (name : String)
  | field (config : Fields)
  | lineBreak
  deriving Repr

def Content.kind : Content → NodeKind
  | .tab => .tab
  | .palette _ => .palette
  | .field _ => .field
  | .lineBreak => .lineBreak

/-- A node of a form tree; parent and children are ids of other nodes. -/
structure Node where
  id : String
  slots : Slots
  parent : Option String
  children : List String
  content : Content
  deriving Repr

namespace Node

/-- A node without place, slots and children. -/
def fresh (id : String) (content : Content) : Node := ⟨id, [], none, [], content⟩

def kind (n : Node) : NodeKind := n.content.kind

def label? (n : Node) : Option String := n.slots.label?

/-- Writes the label; taking it away empties the slot, if there is one. -/
def setLabel (n : Node) : Option String → Node
  | some label => { n with slots := n.slots.put 0 label }
  | none => if n.slots.isEmpty then n else { n with slots := n.slots.put 0 "" }

def config? (n : Node) : Option Fields :=
  match n.content with
  | .field config => some config
  | _ => none

def palette? (n : Node) : Option String :=
  match n.content with
  | .palette name => some name
  | _ => none

/-- Edits the configuration of a field; other nodes stay as they are. -/
def configure (n : Node) (f : Fields → Fields) : Node :=
  match n.content with
  | .field config => { n with content := .field (f config) }
  | _ => n

end Node

end FormLayout
