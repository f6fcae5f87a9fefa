import FormLayout.Column.Merge
import FormLayout.Inheritance
import FormLayout.Options
/-!
Tables: the stored columns and palettes, the base type, and the types derived from it, each with a
form tree of its own.
-/

namespace FormLayout

/-- A type of a table. Its columns are the stored overrides, and empty entries for palette fields
that are known nowhere. -/
structure TableType where
  key : String
  tree : FormTree
  columns : Columns
  document : Fields
  memory : Memory

/-- A table that is open for edits. -/
structure Table where
  name : String
  options : Options
  document : Fields
  columns : Columns
  palettes : Palettes
  paletteDocuments : Fields
  base : TableType
  types : Entries TableType
  typeOrder : List String

namespace TableType

/-- A type whose layout has not been read yet. -/
def unread (key : String) (document : Fields) (options : Options) : TableType :=
  ⟨key, .empty options.defaultTabLabel, [], document, []⟩

/-- The show item that is stored in a document, or an empty one. -/
def showItemIn (document : Fields) : String :=
  ((document.get? "showitem").bind Value.string?).getD ""

/-- The full configurations of the fields that the type shows or stores. -/
def allColumns (ty : TableType) (base : Columns) : Columns :=
  let shown : Columns :=
    Entries.ofList (ty.tree.fields.filterMap fun n => n.config?.map fun c => (n.id, c))
  ty.columns.foldl (fun acc e =>
    if acc.has e.1 then acc else acc.put e.1 (Column.merge ((base.get? e.1).getD []) e.2)) shown

end TableType

namespace Table

def baseConfig? (table : Table) : String → Option Fields :=
  FormLayout.baseConfig? table.base.tree table.columns

/-- A type by key, the base type included. -/
def type? (table : Table) (key : String) : Option TableType :=
  if key = table.base.key then some table.base else table.types.get? key

end Table

end FormLayout
