import FormLayout.Column.Diff
import FormLayout.Command.Arguments
import FormLayout.Command.Compile
import FormLayout.Command.Describe
import FormLayout.Document.Toml.Writer
/-!
Running the program on a directory: what it prints, what it writes, and how it ends.
-/

namespace FormLayout

/-- What a command prints, the file that it writes, and the directory after it. -/
structure Effect where
  printed : String
  written : Option (String × String)
  directory : Directory

/-- The end of a run: the exit code, the failure if there is one, and the effect. -/
structure Outcome where
  code : Nat
  failure : Option Error
  effect : Effect

namespace Command

def version : String := "0.1.0"

def usage : String :=
  "Usage: tcaform [OPTIONS] [COMMAND]\n\n" ++
    "Commands:\n" ++
    "  compile  Compile TCA table documents into minimal override form\n" ++
    "  parse    Parse a show-item string and print its entries as JSON\n" ++
    "  diff     Print the column overrides a derived type needs over a base\n" ++
    "  config   Configuration management\n"

/-- The columns of a document. -/
def readColumns (d : Directory) (path : String) : Except Error Columns :=
  match Documents.read d path with
  | .error e => .error e
  | .ok (.object m) =>
    match m.find? fun e => e.2.fields?.isNone with
    | some e => .error (.invalidDocument path (.notObject e.1))
    | none => .ok (Columns.ofFields m)
  | .ok _ => .error (.invalidDocument path .notColumns)

/-- The overrides of the derived columns, and the names of the dummy columns among them. -/
def diffValue (base derived : Columns) (real : List String) : Value :=
  let r := Column.reduce (fun id => real.contains id) base derived
  .object [
    ("columnsOverrides", .ofFields r.overrides),
    ("dummyColumns", .ofStrings (r.base.names.filter fun id => !base.has id))]

def settingsFileName (format : String) : String :=
  if format = "json" then ".tcaformrc.json"
  else if format = "toml" then ".tcaformrc.toml"
  else "tcaform.yaml"

def starterText (format : String) : String :=
  let v := Settings.starter.toValue
  if format = "json" then Json.pretty v
  else if format = "toml" then Toml.write (v.fields?.getD [])
  else Yaml.write v

def optionalOf (type description : String) : Value :=
  .object [("description", .string description), ("type", .ofStrings [type, "null"])]

/-- The schema of settings files. -/
def schema : Value :=
  .object [
    ("title", .string "Settings"),
    ("type", .string "object"),
    ("properties", .object [
      ("$schema", optionalOf "string" "JSON schema reference, ignored when loading"),
      ("root", optionalOf "boolean" "Marks the top of a configuration hierarchy"),
      ("extends", .object [
        ("description", .string "Paths of configuration files to extend"),
        ("type", .ofStrings ["array", "null"]),
        ("items", .object [("type", .string "string")])]),
      ("compiler", .object [
        ("description", .string "Layout and type compiler settings"),
        ("type", .ofStrings ["object", "null"]),
        ("properties", .object [
          ("defaultTabLabel",
            optionalOf "string" "Label of the tab created for layouts without a leading --div--"),
          ("baseTypeKey",
            optionalOf "string"
              "Type key whose layout defines the base table (defaults to the first type)"),
          ("canonicalPaletteCompare",
            optionalOf "boolean"
              "Treat palettes that differ only in whitespace or trailing empty parts as equal")])]),
      ("output", .object [
        ("description", .string "Output document settings"),
        ("type", .ofStrings ["object", "null"]),
        ("properties", .object [
          ("format", .object [
            ("description", .string "Format of compiled documents: 'json' or 'yaml'"),
            ("enum", .array [.string "json", .string "yaml", .null])]),
          ("pretty", optionalOf "boolean" "Pretty-print JSON output")])])])]

/-- Only prints a text. -/
def print (d : Directory) (s : String) : Effect := ⟨s, none, d⟩

/-- Prints a text, or writes it into a file if one is given. -/
def emit (d : Directory) (output : Option String) (s : String) : Except Error Effect :=
  match output with
  | none => .ok (print d (Documents.line s))
  | some path =>
    match d.write path (Documents.closed s) with
    | .ok d => .ok ⟨"", some (path, Documents.closed s), d⟩
    | .error fault => .error (.file path fault)

/-- Runs a command with the settings file that was named, if any. -/
def execute (d : Directory) (settings : Option String) : Command → Except Error Effect
  | .compile input output format tables compact keepGoing => do
    let s ← Settings.load d settings (Compile.startOf d input)
    let v ← Compile.document d s input tables keepGoing
    emit d output (Documents.render (format.getD s.format) (s.pretty && !compact) v)
  | .parse showItem => do
    let entries ← Entry.describe showItem
    return print d (Json.pretty (.array (entries.map Entry.toValue)) ++ "\n")
  | .diff base derived real => do
    let base ← readColumns d base
    let derived ← readColumns d derived
    return print d (Json.pretty (diffValue base derived real) ++ "\n")
  | .createSettings format force =>
    let name := settingsFileName format
    if d.exists? name && !force then .error (.settings (.exists name))
    else emit d (some name) (starterText format)
  | .showSettings resolved => do
    let s ← Settings.load d settings "."
    return print d (Json.pretty (if resolved then s.resolvedValue else s.toValue) ++ "\n")
  | .writeSchema output => emit d output (Json.pretty schema)

end Command

/-- Runs the program in the directory. -/
def Directory.run (d : Directory) (args : List String) : Outcome :=
  match Request.ofArguments args with
  | .version => ⟨0, none, Command.print d ("tcaform " ++ Command.version ++ "\n")⟩
  | .help => ⟨0, none, Command.print d Command.usage⟩
  | .completion _ => ⟨0, none, Command.print d ""⟩
  | .misuse => ⟨2, none, Command.print d ""⟩
  | .run settings command =>
    match command.execute d settings with
    | .ok effect => ⟨0, none, effect⟩
    | .error e => ⟨1, some e, Command.print d ""⟩

end FormLayout
