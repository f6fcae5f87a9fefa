import FormLayout.Proofs.Table.Editing
/-!
Runs of calls on an open table. They change the trees of the types, the columns and what is
remembered of them, and nothing else.
-/

namespace FormLayout
set_option autoImplicit true

/-- A call on an open table. -/
inductive TableEdit where
  | base (e : TreeEdit)
  | type (key : String) (e : TreeEdit)
  | field (key id : String) (edits : List NodeEdit)
  | resolve (key id : String)
  | invalidate (id : String)
  | removeField (definitions : Definitions) (id : String)

/-- The texts that the call puts in are plain. -/
def TableEdit.Plain : TableEdit → Prop
  | .base e | .type _ e => e.Plain
  | .field _ id edits => (TreeEdit.field id [] edits).Plain
  | .resolve _ _ | .invalidate _ | .removeField _ _ => True

namespace Table

/-- The table after a call. A call on a type that the table does not have changes nothing. -/
def run (table : Table) : TableEdit → Table
  | .base e => (table.editBase e).1
  | .type key e => ((table.onType? key fun ty => ty.edit e).map Prod.fst).getD table
  | .field key id edits =>
    ((table.onType? key fun ty => ty.field table.baseConfig? id edits).map Prod.fst).getD table
  | .resolve key id =>
    ((table.onType? key fun ty => ty.resolve table.baseConfig? id).map Prod.fst).getD table
  | .invalidate id => (table.invalidate id).1
  | .removeField definitions id => (table.removeField definitions id).1

def runAll (table : Table) (edits : List TableEdit) : Table := edits.foldl run table

theorem runAll_induction {P : Table → Prop} {start : Table} (h : P start) {edits : List TableEdit}
    (hstep : ∀ table, ∀ e ∈ edits, P table → P (table.run e)) : P (start.runAll edits) := by
  induction edits generalizing start with
  | nil => exact h
  | cons e rest ih =>
    exact ih (hstep start e List.mem_cons_self h) fun table e he =>
      hstep table e (List.mem_cons_of_mem _ he)

variable {start table : Table} {key : String}

theorem Opened.run (h : table.Opened) {e : TableEdit} (he : e.Plain) : (table.run e).Opened := by
  have htype {α : Type} {key : String} {f : TableType → TableType × α} (hf : ∀ table' answer,
      table.onType? key f = some (table', answer) → table'.Opened) :
      (((table.onType? key f).map Prod.fst).getD table).Opened := by
    cases ht : table.onType? key f with
    | none => exact h
    | some e => exact hf e.1 e.2 ht
  cases e with
  | base e => exact h.editBase he
  | type key e => exact htype fun _ _ ht => h.editType he ht
  | field key id edits => exact htype fun _ _ ht => h.field he ht
  | resolve key id => exact htype fun _ _ ht => h.resolve ht
  | invalidate id => exact .invalidate id h
  | removeField definitions id => exact .removeField definitions id h

/-- What calls leave as it is. -/
structure Kept (start table : Table) : Prop where
  options : table.options = start.options
  document : table.document = start.document
  palettes : table.palettes = start.palettes
  palette_documents : table.paletteDocuments = start.paletteDocuments
  order : table.typeOrder = start.typeOrder
  base_key : table.base.key = start.base.key
  base_document : table.base.document = start.base.document
  type_document (key : String) : (table.types.get? key).map TableType.document =
    (start.types.get? key).map TableType.document

namespace Kept

theorem refl (table : Table) : Kept table table := ⟨rfl, rfl, rfl, rfl, rfl, rfl, rfl, fun _ => rfl⟩

theorem withTypes (h : Kept start table) {types : Entries TableType}
    (ht : ∀ key, (types.get? key).map TableType.document =
      (table.types.get? key).map TableType.document) : Kept start { table with types } :=
  ⟨h.options, h.document, h.palettes, h.palette_documents, h.order, h.base_key, h.base_document,
    fun key => (ht key).trans (h.type_document key)⟩

theorem onType (h : Kept start table) {f : TableType → TableType × α}
    (hf : ∀ ty, (f ty).1.document = ty.document) :
    Kept start (((table.onType? key f).map Prod.fst).getD table) := by
  rw [onType?]
  cases ht : table.types.get? key with
  | none => exact h
  | some ty =>
    refine h.withTypes fun x => ?_
    rw [Entries.get?_put]
    split
    · next hx =>
      rw [hx, ht, Option.map_some, Option.map_some, hf]
    · rfl

theorem mapTypes (h : Kept start table) {f : TableType → TableType}
    (hf : ∀ ty, (f ty).document = ty.document) :
    Kept start { table with types := table.types.map fun e : String × TableType => (e.1, f e.2) } := by
  refine h.withTypes fun x => ?_
  rw [Entries.get?_map, Option.map_map]
  exact Option.map_congr fun ty _ => hf ty

theorem document_refresh (ty : TableType) (lookup : String → Option Fields) (id : String) :
    (ty.refresh lookup id).1.document = ty.document := by
  rcases ty.refresh_cases lookup id with ⟨_, he⟩ | ⟨_, _, ⟨_, he⟩ | ⟨_, _, he⟩⟩ <;> rw [he]

theorem document_field (ty : TableType) (lookup : String → Option Fields) (id : String)
    (edits : List NodeEdit) : (ty.field lookup id edits).1.document = ty.document := by
  rw [TableType.field]
  split <;> rfl

theorem run (h : Kept start table) (e : TableEdit) : Kept start (table.run e) := by
  cases e with
  | base e =>
    exact ⟨h.options, h.document, h.palettes, h.palette_documents, h.order, h.base_key,
      h.base_document, h.type_document⟩
  | type key e => exact h.onType fun _ => rfl
  | field key id edits => exact h.onType fun ty => document_field ty _ _ _
  | resolve key id => exact h.onType fun _ => rfl
  | invalidate id =>
    rw [Table.run, invalidate_eq]
    exact h.mapTypes fun ty => document_refresh ty _ id
  | removeField definitions id =>
    have hmap := h.mapTypes (f := fun ty => (ty.dropField id).1) fun _ => rfl
    rw [Table.run, removeField_eq]
    exact ⟨h.options, h.document, h.palettes, h.palette_documents, h.order, h.base_key,
      h.base_document, hmap.type_document⟩

theorem runAll (start : Table) (edits : List TableEdit) : Kept start (start.runAll edits) :=
  runAll_induction (.refl start) fun _ e _ h => h.run e

theorem ordered (h : Kept start table) (hs : start.Ordered) : table.Ordered := by
  refine hs.congr h.order h.base_key fun key => ?_
  rw [← Option.isSome_map, h.type_document, Option.isSome_map]

end Kept

end Table

end FormLayout
