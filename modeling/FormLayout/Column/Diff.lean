import FormLayout.Column.LooseEq
/-!
Reducing the configuration of a derived type to what differs from the base.
-/

namespace FormLayout.Column

mutual

/-- The fields of the derived configuration that differ from the base. Objects on both sides are
reduced in turn and dropped when nothing in them differs. -/
def diff (base : Fields) : List (String × Value) → Fields
  | [] => []
  | (k, v) :: rest =>
    match change? (base.get? k) v with
    | some change => (k, change) :: diff base rest
    | none => diff base rest

/-- What has to be written over an existing value to give a loosely equal one. -/
def change? (existing : Option Value) : Value → Option Value
  | .object derived =>
    match existing with
    | some (.object base) =>
      match diff base derived with
      | [] => none
      | f :: fs => some (.object (f :: fs))
    | some v => if looseEq v (.object derived) then none else some (.object derived)
    | none => some (.object derived)
  | v =>
    match existing with
    | some e => if looseEq e v then none else some v
    | none => some v

end

/-- The overrides that a type needs over the base columns, and the base columns with the type's
dummy columns added. -/
structure Reduction where
  base : Columns
  overrides : Columns
  deriving Inhabited

/-- Takes in one column of the type. A column that the base lacks is an override when it is a real
one; otherwise it is a dummy and goes to the base. -/
def Reduction.add (isReal : String → Bool) (r : Reduction) (id : String) (config : Fields) :
    Reduction :=
  match r.base.get? id with
  | none =>
    if isReal id then { r with overrides := r.overrides.put id config }
    else { r with base := r.base.put id config }
  | some known =>
    if Value.equal (.object known) (.object config) then r
    else
      match diff known config with
      | [] => r
      | f :: fs => { r with overrides := r.overrides.put id (f :: fs) }

/-- Reduces the columns of a type. Columns equal to those of the base need no overrides. -/
def reduce (isReal : String → Bool) (base columns : Columns) : Reduction :=
  if base.equal columns then ⟨base, []⟩
  else columns.foldl (fun r e => r.add isReal e.1 e.2) ⟨base, []⟩

end FormLayout.Column
