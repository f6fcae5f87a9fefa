import FormLayout.Column.Merge
import FormLayout.Layout.Writing
/-!
Reading a layout into a form tree. The items are taken in order; fields that are known nowhere are
left out, except in palettes, where they get an empty configuration.
-/

namespace FormLayout.Layout

/-- A layout on its way into a tree: the stored columns with those added so far, the tab that is
open, and the ids that were looked up in the parent, the last one first. -/
structure Reading where
  tree : FormTree
  columns : Columns
  tab : Option String
  asked : List String

/-- A step of reading. What was done before a failure stays done. -/
abbrev Step := EStateM Error Reading

/-- What surrounds the items: the palettes, and the lookup of fields in the parent, if there is
one. -/
structure Surroundings where
  palettes : Palettes
  parent : Option (String → Option Fields)

namespace Step

def edit (f : FormTree → Except Error FormTree) : Step Unit := do
  match f (← get).tree with
  | .ok tree => modify fun r => { r with tree }
  | .error e => throw e

def lineBreak (position : Position) : Step Unit := do
  let (tree, answer) := (← get).tree.lineBreak position
  modify fun r => { r with tree }
  match answer with
  | .ok _ => pure ()
  | .error e => throw e

/-- The end of the open tab. -/
def position : Step Position := do
  match (← get).tab with
  | some tab => pure (.bottom tab)
  | none => pure .default

def openTab (item : Item) : Step Unit := do
  let id := toString (← get).tree.tabs.length
  edit fun t => t.tab id
  modify fun r =>
    { r with tree := r.tree.update id fun n => { n with slots := item.drop 1 }, tab := some id }

/-- The configuration of a field that is new to the tree: the parent's with the stored one over
it. -/
def configOf? (around : Surroundings) (id : String) : Step (Option Fields) := do
  let stored := (← get).columns.get? id
  match around.parent with
  | none => pure stored
  | some lookup =>
    modify fun r => { r with asked := id :: r.asked }
    match lookup id, stored with
    | some inherited, some own => pure (some (Column.merge inherited own))
    | some inherited, none => pure (some inherited)
    | none, own => pure own

/-- Puts a known field at a position, or moves it there if the tree has it. -/
def placeField (id : String) (config : Fields) (slots : Slots) (position : Position) :
    Step Unit := do
  edit fun t => t.field id config
  modify fun r => { r with tree := r.tree.update id fun n => { n with slots } }
  edit fun t => t.place id position

/-- Takes in a field. An unknown one is skipped, or gets an empty configuration in the columns. -/
def addField (around : Surroundings) (inPalette : Bool) (id : String) (slots : Slots)
    (position : Position) : Step Unit := do
  if id = "" then pure ()
  else if ((← get).tree.field? id).isSome then placeField id [] slots position
  else
    match ← configOf? around id with
    | some config => placeField id config slots position
    | none =>
      if inPalette then
        modify fun r => { r with columns := r.columns.put id [] }
        placeField id [] slots position
      else pure ()

def addPaletteItem (around : Surroundings) (palette : String) (item : Item) : Step Unit := do
  let inside := Position.bottom (paletteId palette)
  match item.kind with
  | .special .lineBreak => lineBreak inside
  | .special (.unknown token) => throw (.unknownSpecialItem token item.text)
  | .special _ => throw (.misplacedSpecialItem item.text palette)
  | .field id => addField around true id (item.drop 1) inside

/-- Takes in a palette with its items. Palettes without a name, unknown ones and those that the tree
already has are skipped. -/
def addPalette (around : Surroundings) (item : Item) : Step Unit := do
  match item with
  | [] | [_] => pure ()
  | _ :: rest =>
    let name := rest.getLastD ""
    match around.palettes.get? name with
    | none => pure ()
    | some showItem =>
      if ((← get).tree.palette? name).isSome then pure ()
      else
        let position ← position
        edit fun t => t.palette name
        modify fun r =>
          let tree := r.tree.update (paletteId name) fun n => { n with slots := rest.dropLast }
          { r with tree }
        edit fun t => t.place (paletteId name) position
        (ShowItem.parse showItem).forM (addPaletteItem around name)

def addItem (around : Surroundings) (item : Item) : Step Unit := do
  match item.kind with
  | .special .tab => openTab item
  | .special .palette => addPalette around item
  | .special .lineBreak => lineBreak (← position)
  | .special (.unknown token) => throw (.unknownSpecialItem token item.text)
  | .field id => addField around false id (item.drop 1) (← position)

def ensureTab : Step Unit := modify fun r => { r with tree := r.tree.ensureTab.1 }

end Step

def startsWithTab : List Item → Bool
  | [] => false
  | item :: _ => item.kind = .special .tab

/-- Rebuilds the tree from the layout. -/
def fill (around : Surroundings) (items : List Item) : Step Unit := do
  modify fun r => { r with tree := r.tree.reset }
  unless startsWithTab items do Step.ensureTab
  items.forM (Step.addItem around)
  Step.ensureTab

/-- The outcome of reading a layout: what was built, up to the failure if there is one. -/
structure Filled where
  tree : FormTree
  columns : Columns
  asked : List String
  failure : Option Error

/-- Reads a layout into a tree, which loses what it held. The parent is asked for each field that is
new to the tree. -/
def read (layout : Layout) (tree : FormTree) (columns : Columns)
    (parent : Option (String → Option Fields)) : Filled :=
  let items := ShowItem.parse layout.showItem
  match fill ⟨layout.palettes, parent⟩ items ⟨tree, columns, none, []⟩ with
  | .ok _ r => ⟨r.tree, r.columns, r.asked.reverse, none⟩
  | .error e r => ⟨r.tree, r.columns, r.asked.reverse, some e⟩

end FormLayout.Layout
