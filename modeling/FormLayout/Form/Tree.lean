import FormLayout.Form.Anchor
import FormLayout.Form.Node
import FormLayout.Form.Position
/-!
Form trees. All nodes stand in one map by id; the tabs are listed at the top level, and every
container lists the ids of its children. Nothing nests deeper than tab, palette, field.
-/

namespace FormLayout

/-- The layout of one table type as a tree. -/
structure FormTree where
  tabs : List String
  nodes : Entries Node
  defaultTabLabel : String
  /-- The number in the id of the last line break. -/
  lineBreaks : Nat
  deriving Repr

/-- The id of a palette's node: palettes and fields may have the same name. -/
def paletteId (name : String) : String := "palette:" ++ name

def lineBreakId (n : Nat) : String := "--linebreak-" ++ toString n ++ "--"

/-- The first number from `start` on that is not taken, if it is among the next `n`. -/
def firstFree (taken : Nat → Bool) (start : Nat) : Nat → Nat
  | 0 => start
  | n + 1 => if taken start then firstFree taken (start + 1) n else start

namespace FormTree

def empty (defaultTabLabel : String) : FormTree := ⟨[], [], defaultTabLabel, 0⟩

/-- Drops every node; the numbering of line breaks goes on. -/
def reset (t : FormTree) : FormTree := { t with tabs := [], nodes := [] }

def size (t : FormTree) : Nat := t.nodes.length

def node? (t : FormTree) (id : String) : Option Node := t.nodes.get? id

def has (t : FormTree) (id : String) : Bool := t.nodes.has id

def field? (t : FormTree) (id : String) : Option Node :=
  (t.node? id).filter fun n => n.kind = .field

def palette? (t : FormTree) (name : String) : Option Node :=
  (t.node? (paletteId name)).filter fun n => n.kind = .palette

def tabNodes (t : FormTree) : List Node := t.tabs.filterMap t.node?

def childNodes (t : FormTree) (id : String) : List Node :=
  match t.node? id with
  | some n => n.children.filterMap t.node?
  | none => []

/-- A node and all below it down to the given depth, each before its children. -/
def subtree (t : FormTree) : Nat → String → List Node
  | 0, _ => []
  | depth + 1, id =>
    match t.node? id with
    | none => []
    | some n => n :: n.children.flatMap (t.subtree depth)

/-- Every level that nodes may stand on. -/
def levels : Nat := 3

/-- All nodes in the order of the form. -/
def walk (t : FormTree) : List Node := t.tabs.flatMap (t.subtree levels)

def fields (t : FormTree) : List Node := t.walk.filter fun n => n.kind = .field

def update (t : FormTree) (id : String) (f : Node → Node) : FormTree :=
  { t with nodes := t.nodes.update id f }

/-- Takes a node out of the list that holds it. -/
def detach (t : FormTree) (id : String) : FormTree :=
  match (t.node? id).bind Node.parent with
  | some parent =>
    (t.update id fun n => { n with parent := none }).update parent fun n =>
      { n with children := n.children.filter (· ≠ id) }
  | none => { t with tabs := t.tabs.filter (· ≠ id) }

/-- Puts a detached node into a container, or to the top level. -/
def attach (t : FormTree) (id : String) (container : Option String) (anchor : Anchor) : FormTree :=
  match container with
  | some parent =>
    (t.update parent fun n => { n with children := anchor.insert id n.children }).update id fun n =>
      { n with parent := some parent }
  | none => { t with tabs := anchor.insert id t.tabs }

def relocate (t : FormTree) (id : String) (container : Option String) (anchor : Anchor) :
    FormTree :=
  (t.detach id).attach id container anchor

/-- A decimal number that is no id yet. -/
def nextTabId (t : FormTree) : String :=
  toString (firstFree (fun n => t.has (toString n)) t.tabs.length t.size)

/-- Adds a node outside of all containers. -/
def insertNode (t : FormTree) (id : String) (content : Content) : FormTree :=
  { t with nodes := t.nodes.put id (Node.fresh id content) }

def attachTab (t : FormTree) (id : String) : FormTree :=
  (t.insertNode id .tab).relocate id none .last

/-- The id of the last tab, which is created first if there is no tab. -/
def ensureTab (t : FormTree) : FormTree × String :=
  match t.tabs.getLast? with
  | some id => (t, id)
  | none =>
    let id := t.nextTabId
    ((t.attachTab id).update id fun n => n.setLabel (some t.defaultTabLabel), id)

/-- Moves a node to the default position: a tab to the end, other nodes to the end of the last
tab. -/
def moveToDefault (t : FormTree) (id : String) (kind : NodeKind) : FormTree :=
  if kind = .tab then t.relocate id none .last
  else
    let (t, tab) := t.ensureTab
    t.relocate id (some tab) .last

/-- The container at a place next to a sibling or inside a node, if the kind may stand there. -/
def containerInside (t : FormTree) (kind : NodeKind) (target : String) :
    Except Error (Option String) :=
  match t.node? target with
  | none => .error (.nodeNotFound target)
  | some n =>
    if n.kind.canContain kind then .ok (some target)
    else .error (.invalidNesting kind (.inside n.kind target))

def containerBeside (t : FormTree) (kind : NodeKind) (sibling : String) :
    Except Error (Option String) :=
  match t.node? sibling with
  | none => .error (.nodeNotFound sibling)
  | some n =>
    match n.parent with
    | some parent => t.containerInside kind parent
    | none =>
      if kind = .tab then .ok none
      else .error (.invalidNesting kind (.atTopLevel sibling))

/-- Moves a node. A position that refers to the node itself changes nothing. -/
def place (t : FormTree) (id : String) (position : Position) : Except Error FormTree :=
  match t.node? id with
  | none => .error (.nodeNotFound id)
  | some n =>
    if position.target? = some id then .ok t
    else
      match position with
      | .default => .ok (t.moveToDefault id n.kind)
      | .top target => (t.containerInside n.kind target).map fun c => t.relocate id c .first
      | .bottom target => (t.containerInside n.kind target).map fun c => t.relocate id c .last
      | .before target =>
        (t.containerBeside n.kind target).map fun c => t.relocate id c (.before target)
      | .after target =>
        (t.containerBeside n.kind target).map fun c => t.relocate id c (.after target)

/-- Moves a node to a written position. -/
def moveTo (t : FormTree) (id position : String) : Except Error FormTree := do
  t.place id (← Position.parse position)

/-- Creates a node at the default position, unless there is one of the same id and kind. -/
def create (t : FormTree) (id : String) (content : Content) : Except Error FormTree :=
  match t.node? id with
  | some n =>
    if n.kind = content.kind then .ok t
    else .error (.idCollision id n.kind content.kind)
  | none => .ok ((t.insertNode id content).moveToDefault id content.kind)

def tab (t : FormTree) (id : String) : Except Error FormTree := t.create id .tab

/-- Creates a tab with an id of its own. -/
def addTab (t : FormTree) : FormTree × String := (t.attachTab t.nextTabId, t.nextTabId)

def palette (t : FormTree) (name : String) : Except Error FormTree :=
  t.create (paletteId name) (.palette name)

/-- The configuration is that of a new field; an existing one keeps its own. -/
def field (t : FormTree) (id : String) (config : Fields) : Except Error FormTree :=
  t.create id (.field config)

def nextLineBreak (t : FormTree) : Nat :=
  firstFree (fun n => t.has (lineBreakId n)) (t.lineBreaks + 1) t.size

/-- Adds a line break at a position. Its number is used up even if the position is refused. -/
def lineBreak (t : FormTree) (position : Position) : FormTree × Except Error String :=
  let n := t.nextLineBreak
  let id := lineBreakId n
  let t := { t with lineBreaks := n }
  match (t.insertNode id .lineBreak).place id position with
  | .ok t' => (t', .ok id)
  | .error e => (t, .error e)

/-- Removes a node with all below it, and returns the removed nodes: the node itself without its
parent, the others as they were. -/
def remove (t : FormTree) (id : String) : Except Error (FormTree × List Node) :=
  if t.has id then
    let t := t.detach id
    let removed := t.subtree levels id
    .ok ({ t with nodes := removed.foldl (fun m n => m.erase n.id) t.nodes }, removed)
  else .error (.nodeNotFound id)

end FormTree

end FormLayout
