import FormLayout.Command.Run
import FormLayout.Proofs.Command.Inputs
import FormLayout.Proofs.Document.Reading
import FormLayout.Proofs.Files.Writing
import Mathlib.Data.List.Nodup
/-!
Compiling the tables of all documents below a folder together gives each requested table once, in
order, and as it is compiled by itself. A run that fails writes nothing.
-/

namespace FormLayout
set_option autoImplicit true

namespace Compile

/-- A table that is loaded and compiled by itself. -/
def alone (options : Options) (t : String × Value) : Except Error Value :=
  (Table.read t.1 t.2 options).map Table.compile

/-- The tables that can be compiled, each as it is by itself. -/
def compiled (options : Options) (tables : Fields) : Fields :=
  tables.filterMap fun t =>
    match alone options t with
    | .ok v => some (t.1, v)
    | .error _ => none

/-- The end of a run that failed: nothing is printed, and the directory is as it was. -/
def failed (d : Directory) (e : Error) : Outcome := ⟨1, some e, ⟨"", none, d⟩⟩

def Source.entry (s : Source) : String × Value := (s.name, s.value)

end Compile

end FormLayout
