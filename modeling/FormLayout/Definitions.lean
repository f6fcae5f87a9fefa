import FormLayout.Entries
/-!
The definitions of database columns by table and field. No table is kept without definitions.
-/

namespace FormLayout

/-- Definitions by table, and in each table by field. -/
abbrev Definitions := Entries (Entries String)

namespace Definitions

def ofTable (d : Definitions) (table : String) : Entries String := (d.get? table).getD []

def define (d : Definitions) (table field definition : String) : Definitions :=
  d.put table ((d.ofTable table).put field definition)

def definition? (d : Definitions) (table field : String) : Option String :=
  (d.get? table).bind fun fields => fields.get? field

def undefine (d : Definitions) (table field : String) : Definitions :=
  match d.get? table with
  | none => d
  | some fields =>
    let fields := fields.erase field
    if fields.isEmpty then d.erase table else d.put table fields

def statement (table : String) (fields : Entries String) : String :=
  let lines := fields.map fun e => "    " ++ e.1 ++ " " ++ e.2
  "CREATE TABLE " ++ table ++ " (\n" ++ ",\n".intercalate lines ++ "\n);"

/-- One statement for each table. -/
def statements (d : Definitions) : List String := d.map fun e => statement e.1 e.2

end Definitions

end FormLayout
