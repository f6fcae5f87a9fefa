import FormLayout.Proofs.Table.Reading
import FormLayout.Table.Compiling
/-!
The parts of a document, and the parts that compiling a table writes.
-/

namespace FormLayout
set_option autoImplicit true
open Value

namespace Table

/-- The fields of an object in a document. -/
def partOf (document : Value) (part : String) : Fields :=
  ((document.fields?.bind fun m => m.get? part).bind Value.fields?).getD []

/-- The overrides that a document has for a type. -/
def overridesIn (document : Value) (key : String) : Fields :=
  (((documentOf (partOf document "types") key).get? "columnsOverrides").bind Value.fields?).getD []

end Table

/-- The layout of a type as a document has it. -/
def Layout.ofDocument (document : Value) (key : String) : Layout :=
  ⟨TableType.showItemIn (Table.documentOf (Table.partOf document "types") key),
    Table.palettesOf (Table.partOf document "palettes")⟩

namespace Table

variable {table : Table} {name : String}

namespace Source.In

variable {source : Source} {value : Value}

theorem documents_eq (h : source.In name value) : source.documents = partOf value "types" := by
  rw [h.document]
  exact objects_eq h.types

theorem paletteDocuments_eq (h : source.In name value) :
    source.paletteDocuments = partOf value "palettes" := by
  rw [h.document]
  exact objects_eq h.palettes

theorem layout_eq (h : source.In name value) (key : String) :
    ⟨TableType.showItemIn (documentOf source.documents key), source.palettes⟩ =
      Layout.ofDocument value key := by
  rw [Layout.ofDocument, ← h.documents_eq, ← h.paletteDocuments_eq]
  rfl

end Source.In

theorem showItemIn_put (document : Fields) (showItem : String) :
    TableType.showItemIn (document.put "showitem" (.string showItem)) = showItem := by
  rw [TableType.showItemIn, Entries.get?_put_self]
  rfl

theorem get?_showItem_typeDocument (document : Fields) (showItem : String)
    (overrides : Option Columns) : ((typeDocument document showItem overrides).fields?.getD []).get?
      "showitem" = some (.string showItem) := by
  match overrides with
  | none => exact Entries.get?_put_self _ _ _
  | some [] =>
    refine (Entries.get?_erase_of_ne _ (by decide)).trans ?_
    exact Entries.get?_put_self _ _ _
  | some (c :: cs) =>
    refine (Entries.get?_put_of_ne _ _ (by decide)).trans ?_
    exact Entries.get?_put_self _ _ _

theorem showItemIn_typeDocument (document : Fields) (showItem : String)
    (overrides : Option Columns) :
    TableType.showItemIn ((typeDocument document showItem overrides).fields?.getD []) =
      showItem := by
  rw [TableType.showItemIn, get?_showItem_typeDocument]
  rfl

theorem exists_typeDocument (document : Fields) (showItem : String) (overrides : Option Columns) :
    ∃ m, typeDocument document showItem overrides = .object m := by
  match overrides with
  | none => exact ⟨_, rfl⟩
  | some [] => exact ⟨_, rfl⟩
  | some (c :: cs) => exact ⟨_, rfl⟩

theorem proper_typeDocument {document : Fields} (hd : Proper (.object document))
    (showItem : String) (ho : ∀ overrides, written = some overrides → Proper (.ofFields overrides)) :
    (typeDocument document showItem written).Proper := by
  have hput := hd.put "showitem" (.string showItem)
  match written with
  | none => exact hput
  | some [] => exact hput.erase _
  | some (c :: cs) => exact hput.put _ (ho _ rfl)

theorem get?_columnsOverrides (document : Fields) (showItem : String) (overrides : Columns) :
    ((typeDocument document showItem (some overrides)).fields?.getD []).get? "columnsOverrides" =
      if overrides = [] then none else some (.ofFields overrides) := by
  cases overrides with
  | nil => exact Entries.get?_erase_self _ _
  | cons c cs => exact Entries.get?_put_self _ _ _

theorem fields?_columnsOverrides (document : Fields) (showItem : String) (overrides : Columns) :
    ((((typeDocument document showItem (some overrides)).fields?.getD []).get?
      "columnsOverrides").bind Value.fields?).getD [] =
      overrides.map fun e => (e.1, .object e.2) := by
  rw [get?_columnsOverrides]
  split
  · next hnil => rw [hnil]; rfl
  · rfl

theorem get?_typeDocument_of_ne (document : Fields) (showItem : String)
    (overrides : Option Columns) (hn : name ∉ ["showitem", "columnsOverrides"]) :
    ((typeDocument document showItem overrides).fields?.getD []).get? name =
      document.get? name := by
  simp only [List.mem_cons, List.not_mem_nil, or_false, not_or] at hn
  have hput := Entries.get?_put_of_ne document (.string showItem) hn.1
  match overrides with
  | none => exact hput
  | some [] => exact (Entries.get?_erase_of_ne _ hn.2).trans hput
  | some (c :: cs) => exact (Entries.get?_put_of_ne _ _ hn.2).trans hput

/-- A document with new parts. Empty palettes are not written to a document that has none. -/
def withParts (document : Fields) (columns : Columns) (palettes types : Fields) : Fields :=
  let document := document.put "columns" (.ofFields columns)
  let document :=
    if palettes.isEmpty && !document.has "palettes" then document
    else document.put "palettes" (.object palettes)
  document.put "types" (.object types)

section Parts

variable (document : Fields) (columns : Columns) (palettes types : Fields)

theorem get?_types_withParts :
    (withParts document columns palettes types).get? "types" = some (.object types) :=
  Entries.get?_put_self _ _ _

theorem get?_columns_withParts :
    (withParts document columns palettes types).get? "columns" = some (.ofFields columns) := by
  rw [withParts, Entries.get?_put_of_ne _ _ (by decide)]
  split
  · exact Entries.get?_put_self _ _ _
  · rw [Entries.get?_put_of_ne _ _ (by decide)]
    exact Entries.get?_put_self _ _ _

theorem get?_palettes_withParts :
    palettes = [] ∧ (withParts document columns palettes types).get? "palettes" = none ∨
      (withParts document columns palettes types).get? "palettes" = some (.object palettes) := by
  rw [withParts, Entries.get?_put_of_ne _ _ (by decide)]
  split
  · next h =>
    rw [Bool.and_eq_true, List.isEmpty_iff, Bool.not_eq_true', Entries.has_eq_false_iff] at h
    exact .inl h
  · exact .inr (Entries.get?_put_self _ _ _)

theorem withParts_withParts (again : Fields) :
    withParts (withParts document columns palettes types) columns palettes again =
      (withParts document columns palettes types).put "types" (.object again) := by
  have hcolumns := Entries.put_eq_self (get?_columns_withParts document columns palettes types)
  rw [withParts, hcolumns]
  rcases get?_palettes_withParts document columns palettes types with ⟨rfl, hnone⟩ | hsome
  · rw [if_pos]
    rw [Entries.has_eq_false_iff.2 hnone]
    rfl
  · rw [if_neg, Entries.put_eq_self hsome]
    rw [Entries.has, hsome]
    simp

end Parts

theorem get?_withParts_of_ne {part : String} (document : Fields) (columns : Columns)
    (palettes types : Fields) (hp : part ∉ ["columns", "palettes", "types"]) :
    (withParts document columns palettes types).get? part = document.get? part := by
  simp only [List.mem_cons, List.not_mem_nil, or_false, not_or] at hp
  rw [withParts, Entries.get?_put_of_ne _ _ hp.2.2]
  split
  · exact Entries.get?_put_of_ne _ _ hp.1
  · rw [Entries.get?_put_of_ne _ _ hp.2.1, Entries.get?_put_of_ne _ _ hp.1]

theorem proper_withParts {document : Fields} {columns : Columns} {palettes types : Fields}
    (hd : Proper (.object document)) (hc : Proper (.ofFields columns))
    (hp : Proper (.object palettes)) (ht : Proper (.object types)) :
    Proper (.object (withParts document columns palettes types)) := by
  rw [withParts]
  apply Proper.put _ _ ht
  split
  · exact hd.put _ hc
  · exact (hd.put _ hc).put _ hp

/-- The palettes of a compiled document. -/
def compiledPalettes (table : Table) : Fields :=
  table.compileTypes.palettes.map fun e =>
    (e.1, table.paletteDocument table.compileTypes.formerNames e.1 e.2)

theorem compile_eq (table : Table) : table.compile = .object (withParts table.document
    table.compileTypes.columns table.compiledPalettes table.compileTypes.types) := rfl

theorem partOf_compile_types (table : Table) :
    partOf table.compile "types" = table.compileTypes.types := by
  rw [partOf, compile_eq]
  dsimp only [Value.fields?, Option.bind_some]
  rw [get?_types_withParts]
  rfl

theorem partOf_compile_columns (table : Table) : partOf table.compile "columns" =
    table.compileTypes.columns.map fun e => (e.1, .object e.2) := by
  rw [partOf, compile_eq]
  dsimp only [Value.fields?, Option.bind_some]
  rw [get?_columns_withParts]
  rfl

theorem names_compile_columns (table : Table) :
    (partOf table.compile "columns").names = table.compileTypes.columns.names := by
  rw [partOf_compile_columns, Entries.names, List.map_map]
  rfl

theorem get?_compile_columns (table : Table) (id : String) :
    (partOf table.compile "columns").get? id =
      (table.compileTypes.columns.get? id).map Value.object := by
  rw [partOf_compile_columns, Entries.get?_map]

theorem partOf_compile_palettes (table : Table) :
    partOf table.compile "palettes" = table.compiledPalettes := by
  rw [partOf, compile_eq]
  dsimp only [Value.fields?, Option.bind_some]
  rcases get?_palettes_withParts table.document table.compileTypes.columns table.compiledPalettes
    table.compileTypes.types with ⟨hnil, hnone⟩ | hsome
  · rw [hnone, hnil]
    rfl
  · rw [hsome]
    rfl

theorem names_compiledPalettes (table : Table) :
    table.compiledPalettes.names = table.compileTypes.palettes.names := by
  rw [compiledPalettes, Entries.names, List.map_map]
  rfl

theorem palettesOf_compiledPalettes (table : Table) :
    palettesOf table.compiledPalettes = table.compileTypes.palettes := by
  rw [palettesOf, compiledPalettes, List.map_map]
  refine (List.map_congr_left fun e _ => ?_).trans (List.map_id _)
  exact Prod.ext rfl (showItemIn_put _ _)

theorem palettesOf_compile (table : Table) :
    palettesOf (partOf table.compile "palettes") = table.compileTypes.palettes := by
  rw [partOf_compile_palettes, palettesOf_compiledPalettes]

end Table

end FormLayout
