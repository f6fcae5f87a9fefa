import FormLayout.Layout.Reading
import FormLayout.Table.Basic
/-!
Reading a table from its document.
-/

namespace FormLayout.Table

/-- The objects of a part of the document. A missing part, null and an empty list count as empty. -/
def objects (table path : String) : Option Value → Except Error Fields
  | none | some .null | some (.array []) => .ok []
  | some (.object m) =>
    match m.find? fun e => e.2.fields?.isNone with
    | some e => .error (.invalidDocument table (.notObject (path ++ "." ++ e.1)))
    | none => .ok m
  | some _ => .error (.invalidDocument table (.notObject path))

def columnsOf (table path : String) (part : Option Value) : Except Error Columns :=
  (objects table path part).map Columns.ofFields

/-- The option names the base type if the table has this type, or no types at all; else it is the
first one. -/
def baseKey (options : Options) (types : Fields) : String :=
  let first := types.names.headD "0"
  match options.baseTypeKey with
  | some key => if types.isEmpty || types.has key then key else first
  | none => first

def documentOf (documents : Fields) (key : String) : Fields :=
  ((documents.get? key).bind Value.fields?).getD []

/-- Reads a derived type against the base tree and columns. -/
def readType (name : String) (options : Options) (palettes : Palettes)
    (lookup : String → Option Fields) (key : String) (document : Fields) :
    Except Error TableType := do
  let ty := TableType.unread key document options
  let columns ← columnsOf name ("types." ++ key ++ ".columnsOverrides")
    (document.get? "columnsOverrides")
  let filled := Layout.read ⟨TableType.showItemIn document, palettes⟩ ty.tree columns (some lookup)
  match filled.failure with
  | some e => throw e
  | none =>
    return { ty with
      tree := filled.tree
      columns := filled.columns
      memory := Memory.resolveAll [] lookup filled.asked }

def read (name : String) (value : Value) (options : Options) : Except Error Table := do
  match value.fields? with
  | none => throw (.invalidDocument name .notTable)
  | some document =>
    let columns ← columnsOf name "columns" (document.get? "columns")
    let paletteDocuments ← objects name "palettes" (document.get? "palettes")
    let palettes : Palettes := paletteDocuments.map fun e =>
      (e.1, TableType.showItemIn (e.2.fields?.getD []))
    let documents ← objects name "types" (document.get? "types")
    let key := baseKey options documents
    let base := TableType.unread key (documentOf documents key) options
    let filled := Layout.read ⟨TableType.showItemIn base.document, palettes⟩ base.tree columns none
    match filled.failure with
    | some e => throw e
    | none =>
      let lookup := FormLayout.baseConfig? filled.tree filled.columns
      let derived := documents.names.filter (· ≠ key)
      let types ← derived.mapM fun k => do
        return (k, ← readType name options palettes lookup k (documentOf documents k))
      return {
        name, options, document, palettes, paletteDocuments, types
        columns := filled.columns
        base := { base with tree := filled.tree }
        typeOrder := if documents.isEmpty then [key] else documents.names }

end FormLayout.Table
