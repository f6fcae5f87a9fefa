import FormLayout.Command.Documents
import FormLayout.Settings.Loading
import FormLayout.Table.Compiling
import FormLayout.Table.Reading
/-!
Compiling the tables of a file, or of all files below a folder, into one document.
-/

namespace FormLayout.Compile

/-- A table with the file it comes from. -/
structure Source where
  name : String
  value : Value
  file : String

/-- Where settings are looked for: in the input folder, or next to the input file. -/
def startOf (d : Directory) (input : String) : String :=
  if d.isFolder input then input
  else if Path.parent input = "" then "." else Path.parent input

/-- Settings files are no inputs. -/
def isInput (path : String) : Bool :=
  Documents.isDocument path &&
    match Path.fileName? path with
    | some name => !Settings.fileNames.contains name
    | none => true

/-- The given file, or the documents below the given folder in a fixed order. -/
def inputFiles (d : Directory) (input : String) : Except Error (List String) :=
  if d.isFile input then .ok [input]
  else if d.isFolder input then .ok ((d.files input).filter isInput)
  else .error (.file input .inputMissing)

/-- Adds the tables of a document, none of which may be there already. -/
def addTables (file : String) (sources : List Source) :
    List (String × Value) → Except Error (List Source)
  | [] => .ok sources
  | (name, value) :: rest =>
    match sources.find? fun s => s.name = name with
    | some s => .error (.invalidDocument name (.definedTwice s.file file))
    | none => addTables file (sources ++ [⟨name, value, file⟩]) rest

def collect (d : Directory) : List Source → List String → Except Error (List Source)
  | sources, [] => .ok sources
  | sources, file :: rest =>
    match Documents.read d file with
    | .error e => .error e
    | .ok (.object m) =>
      match addTables file sources m with
      | .error e => .error e
      | .ok sources => collect d sources rest
    | .ok _ => .error (.invalidDocument file .notTables)

/-- The requested tables in the order of the input; all of them if none is requested. -/
def select (sources : List Source) (tables : List String) : Except Error (List Source) :=
  if tables.isEmpty then .ok sources
  else
    match tables.find? fun name => !sources.any fun s => s.name = name with
    | some name => .error (.invalidDocument name .tableMissing)
    | none => .ok (sources.filter fun s => tables.contains s.name)

/-- Compiles one table by itself. -/
def table (options : Options) (s : Source) : Except Error Value :=
  (Table.read s.name s.value options).map Table.compile

/-- Compiles the tables. Those that fail are left out, or the first one ends it all. -/
def tables (options : Options) (keepGoing : Bool) : List Source → Except Error Fields
  | [] => .ok []
  | s :: rest =>
    match table options s with
    | .ok v => (tables options keepGoing rest).map fun m => (s.name, v) :: m
    | .error e => if keepGoing then tables options keepGoing rest else .error e

/-- The compiled document with the settings in effect. -/
def document (d : Directory) (settings : Settings) (input : String) (requested : List String)
    (keepGoing : Bool) : Except Error Value := do
  let sources ← collect d [] (← inputFiles d input)
  let sources ← select sources requested
  return .object (← tables settings.options keepGoing sources)

end FormLayout.Compile
