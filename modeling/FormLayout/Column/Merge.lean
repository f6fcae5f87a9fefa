import FormLayout.Document.Value
/-!
Laying one column configuration over another. Objects are merged field by field; every other value
replaces what it covers.
-/

namespace FormLayout.Column

mutual

def merge (base : Fields) : List (String × Value) → Fields
  | [] => base
  | (k, v) :: rest => merge (base.put k (cover (base.get? k) v)) rest

/-- What a field holds after a value is laid over it. -/
def cover (existing : Option Value) : Value → Value
  | .object overlay =>
    match existing with
    | some (.object base) => .object (merge base overlay)
    | _ => .object overlay
  | v => v

end

end FormLayout.Column
