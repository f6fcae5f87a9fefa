import FormLayout.Column.Merge
import FormLayout.Form.Tree
/-!
Edits of form trees as data, and their execution. An edit that fails leaves what was done before
it.
-/

namespace FormLayout

/-- An edit of one node. -/
inductive NodeEdit where
  | label (label : String)
  | clearLabel
  | slots (slots : Slots)
  | move (position : String)
  | set (fields : Fields)
  | unset (names : List String)
  | merge (fields : Fields)
  | remove

/-- An edit of a tree. Those that give a node go on with edits of it. -/
inductive TreeEdit where
  | tab (id : String) (edits : List NodeEdit)
  | addTab (edits : List NodeEdit)
  | palette (name : String) (edits : List NodeEdit)
  | field (id : String) (config : Fields) (edits : List NodeEdit)
  | lineBreak (position : String) (edits : List NodeEdit)
  | node (id : String) (edits : List NodeEdit)
  | move (id position : String)
  | tryMove (id position : String)
  | remove (id : String)
  | ensureTab
  | reset
  | setLabel (id : String) (label : Option String)

/-- What an edit answers. -/
inductive Answer where
  | nothing
  | id (id : String)
  | ids (ids : List String)
  | flag (b : Bool)
  | moved (b : Bool)
  deriving DecidableEq, Repr

namespace FormTree

def removeAnswering (t : FormTree) (id : String) : FormTree × Except Error Answer :=
  match t.remove id with
  | .ok (t, removed) => (t, .ok (.ids (removed.map Node.id)))
  | .error e => (t, .error e)

/-- Edits a node in turn; taking it out ends the list. -/
def editNode (t : FormTree) (id : String) : List NodeEdit → FormTree × Except Error Answer
  | [] => (t, .ok (.id id))
  | .label label :: rest => (t.update id fun n => n.setLabel (some label)).editNode id rest
  | .clearLabel :: rest => (t.update id fun n => n.setLabel none).editNode id rest
  | .slots slots :: rest => (t.update id fun n => { n with slots }).editNode id rest
  | .move position :: rest =>
    match t.moveTo id position with
    | .ok t => t.editNode id rest
    | .error e => (t, .error e)
  | .set fields :: rest =>
    (t.update id fun n => n.configure fun c => c.extend fields).editNode id rest
  | .unset names :: rest =>
    (t.update id fun n => n.configure fun c => names.foldl Entries.erase c).editNode id rest
  | .merge fields :: rest =>
    (t.update id fun n => n.configure fun c => Column.merge c fields).editNode id rest
  | .remove :: _ => t.removeAnswering id

/-- Goes on with edits of a node that was created or found. -/
def thenEdit (t : FormTree) (id : String) (edits : List NodeEdit) :
    Except Error FormTree → FormTree × Except Error Answer
  | .ok t => t.editNode id edits
  | .error e => (t, .error e)

def run (t : FormTree) : TreeEdit → FormTree × Except Error Answer
  | .tab id edits => t.thenEdit id edits (t.tab id)
  | .addTab edits => t.addTab.1.editNode t.addTab.2 edits
  | .palette name edits => t.thenEdit (paletteId name) edits (t.palette name)
  | .field id config edits => t.thenEdit id edits (t.field id config)
  | .lineBreak position edits =>
    match Position.parse position with
    | .error e => (t, .error e)
    | .ok p =>
      match t.lineBreak p with
      | (t, .ok id) => t.editNode id edits
      | (t, .error e) => (t, .error e)
  | .node id edits => if t.has id then t.editNode id edits else (t, .ok .nothing)
  | .move id position =>
    match t.moveTo id position with
    | .ok t => (t, .ok .nothing)
    | .error e => (t, .error e)
  | .tryMove id position =>
    match recovered (t.moveTo id position) with
    | .ok (some t) => (t, .ok (.moved true))
    | .ok none => (t, .ok (.moved false))
    | .error e => (t, .error e)
  | .remove id => t.removeAnswering id
  | .ensureTab => (t.ensureTab.1, .ok (.id t.ensureTab.2))
  | .reset => (t.reset, .ok .nothing)
  | .setLabel id label =>
    if t.has id then (t.update id fun n => n.setLabel label, .ok (.flag true))
    else (t, .ok (.flag false))

end FormTree

end FormLayout
