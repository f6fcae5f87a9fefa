import FormLayout.Column.Diff
import FormLayout.Layout.Writing
import FormLayout.Palette.Fold
import FormLayout.Table.Basic
/-!
Compiling a table back into a document. The types are compiled in order into the shared columns and
palettes; what a document holds besides these is passed through.
-/

namespace FormLayout.Table

/-- The shared part of the document while the types are compiled, with the former names of renamed
palettes. -/
structure Compiled where
  columns : Columns
  palettes : Palettes
  formerNames : Entries String
  types : Fields

/-- The document of a type with a new show item. Overrides are written if there are any; no
overrides given leaves the stored ones alone. -/
def typeDocument (document : Fields) (showItem : String) (overrides : Option Columns) : Value :=
  let document := document.put "showitem" (.string showItem)
  match overrides with
  | none => .object document
  | some [] => .object (document.erase "columnsOverrides")
  | some (c :: cs) => .object (document.put "columnsOverrides" (.ofFields (c :: cs)))

/-- A column is real when the table stores it or its base shows it. -/
def isReal (table : Table) (id : String) : Bool :=
  table.columns.has id || (table.base.tree.field? id).isSome

/-- The stored columns, with the configurations that the base tree holds. -/
def baseColumns (table : Table) : Columns :=
  table.base.tree.fields.foldl (fun columns n =>
    match n.config? with
    | some config => columns.put n.id config
    | none => columns) table.columns

def compileType (table : Table) (c : Compiled) (key : String) : Compiled :=
  if key = table.base.key then
    { c with
      types := c.types.put key
        (typeDocument table.base.document table.base.tree.layout.showItem none) }
  else
    match table.types.get? key with
    | none => c
    | some ty =>
      let layout := ty.tree.layout
      let reduction := Column.reduce table.isReal c.columns (ty.allColumns c.columns)
      let folded := Palette.fold table.options.canonicalPalettes key c.palettes layout.palettes
        layout.showItem
      { columns := reduction.base
        palettes := folded.shared
        formerNames := folded.renamed.foldl (fun m e => m.put e.2 e.1) c.formerNames
        types := c.types.put key
          (typeDocument ty.document folded.showItem (some reduction.overrides)) }

def compileTypes (table : Table) : Compiled :=
  table.typeOrder.foldl table.compileType
    ⟨table.baseColumns, table.palettes.extend table.base.tree.layout.palettes, [], []⟩

/-- The document of a palette. A renamed palette keeps the settings of the one it comes from. -/
def paletteDocument (table : Table) (formerNames : Entries String) (name showItem : String) :
    Value :=
  let source := (formerNames.get? name).getD name
  let settings := ((table.paletteDocuments.get? source).bind Value.fields?).getD []
  .object (settings.put "showitem" (.string showItem))

def compile (table : Table) : Value :=
  let c := table.compileTypes
  let palettes := c.palettes.map fun e => (e.1, table.paletteDocument c.formerNames e.1 e.2)
  let document := table.document.put "columns" (.ofFields c.columns)
  let document :=
    if palettes.isEmpty && !document.has "palettes" then document
    else document.put "palettes" (.object palettes)
  .object (document.put "types" (.object c.types))

end FormLayout.Table
