import FormLayout.Document.Json.Reader
import FormLayout.Document.Json.Writer
import FormLayout.Document.Yaml.Reader
import FormLayout.Document.Yaml.Writer
import FormLayout.Files.Directory
import FormLayout.Settings.Basic
/-!
The documents that commands read and write.
-/

namespace FormLayout.Documents

def extensionOf (path : String) : Option String := (Path.extension? path).map Text.lower

def isDocument (path : String) : Bool :=
  match extensionOf path with
  | some e => ["json", "yaml", "yml"].contains e
  | none => false

/-- Reads a document: YAML by its extension, and JSON else. -/
def read (d : Directory) (path : String) : Except Error Value :=
  match d.read path with
  | .error fault => .error (.file path fault)
  | .ok content =>
    if extensionOf path = some "yaml" || extensionOf path = some "yml" then
      match Yaml.readValue? content with
      | some v => .ok v
      | none => .error (.invalidDocument path .malformedYaml)
    else
      match Json.read? content with
      | some v => .ok v
      | none => .error (.invalidDocument path .malformedJson)

def render (format : OutputFormat) (pretty : Bool) (v : Value) : String :=
  match format with
  | .json => if pretty then Json.pretty v else Json.compact v
  | .yaml => Yaml.write v

/-- The text with at least one line break at its end, for a file. -/
def closed (s : String) : String := if s.toList.getLast? = some '\n' then s else s ++ "\n"

/-- The text with one line break at its end, for printing. -/
def line (s : String) : String :=
  String.ofList ((s.toList.reverse.dropWhile (· = '\n')).reverse ++ ['\n'])

end FormLayout.Documents
