import FormLayout.Document.Json.Writer
/-!
The TOML text of a table: plain keys first, and then one section for each table in it.
-/

namespace FormLayout.Toml

def scalarText : Value → String
  | .bool b => if b then "true" else "false"
  | .number n => Json.number n
  | .string s => Json.quote s
  | v => Json.compact v

/-- The lines of the keys that are no tables. -/
def plainLines (m : Fields) : String :=
  "".intercalate <| (m.filter fun e => e.2.fields?.isNone).map fun e =>
    e.1 ++ " = " ++ scalarText e.2 ++ "\n"

/-- Writes two levels: plain keys, and a section for each table. -/
def write (m : Fields) : String :=
  let sections := m.filterMap fun e => e.2.fields?.map fun inner =>
    "[" ++ e.1 ++ "]\n" ++ plainLines inner
  "\n".intercalate ((if (plainLines m).isEmpty then [] else [plainLines m]) ++ sections)

end FormLayout.Toml
