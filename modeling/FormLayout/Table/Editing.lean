import FormLayout.Column.Diff
import FormLayout.Definitions
import FormLayout.Form.Edit
import FormLayout.Table.Basic
/-!
Edits of an open table and of the trees of its types.
-/

namespace FormLayout

namespace TableType

/-- The configuration of a base field as this type sees it. -/
def resolve (ty : TableType) (lookup : String → Option Fields) (id : String) :
    TableType × Option Fields :=
  let (memory, config) := ty.memory.resolve lookup id
  ({ ty with memory }, config)

def edit (ty : TableType) (e : TreeEdit) : TableType × Except Error Answer :=
  let (tree, answer) := ty.tree.run e
  ({ ty with tree }, answer)

/-- Creates or fetches a field. A new one inherits the base configuration, with the stored overrides
over it. -/
def field (ty : TableType) (lookup : String → Option Fields) (id : String) (edits : List NodeEdit) :
    TableType × Except Error Answer :=
  if (ty.tree.field? id).isSome then ty.edit (.field id [] edits)
  else
    let (ty, inherited) := ty.resolve lookup id
    ty.edit (.field id (Column.merge (inherited.getD []) ((ty.columns.get? id).getD [])) edits)

/-- Forgets a field. If the type shows it, its configuration is made anew from the base, with what
the type changed itself. The flag says whether the field was remembered. -/
def refresh (ty : TableType) (lookup : String → Option Fields) (id : String) : TableType × Bool :=
  match ty.memory.take id with
  | (_, none) => (ty, false)
  | (memory, some previous) =>
    let ty := { ty with memory }
    match (ty.tree.field? id).bind Node.config? with
    | none => (ty, true)
    | some current =>
      let own := Column.diff (previous.getD []) current
      let (ty, config) := ty.resolve lookup id
      let config := Column.merge (config.getD []) own
      ({ ty with tree := ty.tree.update id fun n => n.configure fun _ => config }, true)

end TableType

/-- Removes a field from a tree; the flag says whether it was there. -/
def FormTree.dropField (t : FormTree) (id : String) : FormTree × Bool :=
  if (t.field? id).isSome then
    match t.remove id with
    | .ok (t, _) => (t, true)
    | .error _ => (t, false)
  else (t, false)

/-- Removes a field from all that a type holds; the flag says whether the type showed or stored
it. -/
def TableType.dropField (ty : TableType) (id : String) : TableType × Bool :=
  let (tree, shown) := ty.tree.dropField id
  ({ ty with tree, columns := ty.columns.erase id, memory := ty.memory.erase id },
    shown || ty.columns.has id)

namespace Table

def editBase (table : Table) (e : TreeEdit) : Table × Except Error Answer :=
  let (base, answer) := table.base.edit e
  ({ table with base }, answer)

/-- Works on a derived type; none when there is no such type. -/
def onType? {α : Type} (table : Table) (key : String) (f : TableType → TableType × α) :
    Option (Table × α) :=
  (table.types.get? key).map fun ty =>
    let (ty, answer) := f ty
    ({ table with types := table.types.put key ty }, answer)

/-- Forgets a field in all derived types, and counts those that remembered it. -/
def invalidate (table : Table) (id : String) : Table × Nat :=
  let refreshed := table.types.map fun e => (e.1, e.2.refresh table.baseConfig? id)
  ({ table with types := refreshed.map fun e => (e.1, e.2.1) },
    refreshed.countP fun e => e.2.2)

/-- Removes a field from the table and its definition from the registry. The flag says whether the
field was known anywhere. -/
def removeField (table : Table) (definitions : Definitions) (id : String) :
    Table × Definitions × Bool :=
  let (tree, shown) := table.base.tree.dropField id
  let types := table.types.map fun e => (e.1, e.2.dropField id)
  ({ table with
      columns := table.columns.erase id
      base := { table.base with tree }
      types := types.map fun e => (e.1, e.2.1) },
    definitions.undefine table.name id,
    table.columns.has id || shown || types.any fun e => e.2.2)

end Table

end FormLayout
