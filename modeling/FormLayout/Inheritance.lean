import FormLayout.Form.Tree
/-!
How derived types come to the configurations of the base table: by lookup, remembered from the
first time on until it is forgotten.
-/

namespace FormLayout

/-- The configuration of a field in the base: that in the tree, else the stored one. -/
def baseConfig? (tree : FormTree) (columns : Columns) (id : String) : Option Fields :=
  match (tree.field? id).bind Node.config? with
  | some config => some config
  | none => columns.get? id

/-- Remembered lookups. A field may be remembered as unknown. -/
abbrev Memory := Entries (Option Fields)

namespace Memory

/-- Looks a field up unless it is remembered. -/
def resolve (m : Memory) (lookup : String → Option Fields) (id : String) : Memory × Option Fields :=
  match m.get? id with
  | some known => (m, known)
  | none => (m.put id (lookup id), lookup id)

/-- Looks a field up unless it is remembered, where the lookup may have effects. -/
def resolveM {μ : Type → Type} [Monad μ] (m : Memory) (lookup : String → μ (Option Fields))
    (id : String) : μ (Memory × Option Fields) :=
  match m.get? id with
  | some known => pure (m, known)
  | none => do
    let found ← lookup id
    return (m.put id found, found)

/-- Forgets a field and returns what was remembered of it. -/
def take (m : Memory) (id : String) : Memory × Option (Option Fields) := (m.erase id, m.get? id)

/-- Forgets a field and returns whether it was remembered. -/
def invalidate (m : Memory) (id : String) : Memory × Bool :=
  let (rest, old) := m.take id
  (rest, old.isSome)

/-- Forgets all fields. -/
def clear (_ : Memory) : Memory := []

/-- Remembers the lookups of some fields. -/
def resolveAll (m : Memory) (lookup : String → Option Fields) (ids : List String) : Memory :=
  ids.foldl (fun m id => (m.resolve lookup id).1) m

end Memory

end FormLayout
