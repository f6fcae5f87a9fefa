import FormLayout.Document.Json.Reader
import FormLayout.Document.Toml.Reader
import FormLayout.Document.Yaml.Reader
import FormLayout.Settings.View
/-!
The formats of settings files. In JSON and TOML a section may also be the list of its values, and a
table may stand for a choice, which then is its only name.
-/

namespace FormLayout.Settings

/-- A list of values is a section if there is one for each name. -/
def viewTree : Json.Tree → View Json.Tree
  | .null => { isAbsent := some true }
  | .bool b => { bool := some b }
  | .number _ => {}
  | .string s => { text := s, format := s.bind OutputFormat.ofName? }
  | .array items =>
    { items := some items
      values? := fun names =>
        if items.length = names.length then some (items.map some) else none }
  | .object fields =>
    { format := match fields with
        | [(some name, .null)] => OutputFormat.ofName? name
        | _ => none
      values? := View.named? fields }

def ofTree? (t : Json.Tree) : Option Settings := View.settings? viewTree t

def ofJson? (s : String) : Option Settings := (Json.readTree? none s).bind ofTree?

/-- Whether a table or list holds nothing. -/
def isEmptyNode : Toml.Node → Bool
  | .list items => items.isEmpty
  | .table _ entries => entries.isEmpty
  | _ => false

/-- A list of values is a section if there is at least one for each name. -/
def viewList (items : List Toml.Node) : View Toml.Node :=
  { items := some items
    values? := fun names =>
      if names.length ≤ items.length then some ((items.take names.length).map some) else none }

def viewTable (entries : Entries Toml.Node) : View Toml.Node :=
  { format := match entries with
      | [(name, node)] => if isEmptyNode node then OutputFormat.ofName? name else none
      | _ => none
    values? := View.named? (entries.map fun e => (some e.1, e.2)) }

def viewToml : Toml.Node → View Toml.Node
  | .text s => { text := some s, format := OutputFormat.ofName? s }
  | .bool b => { bool := some b }
  | .other => {}
  | .list items => viewList items
  | .tables last earlier =>
    viewList ((last :: earlier).reverse.map fun entries => .table .headed entries)
  | .table _ entries => viewTable entries

def ofToml? (s : String) : Option Settings :=
  (Toml.read? s).bind fun entries => View.settings? viewToml (.table .headed entries)

/-- A scalar is a text whatever it means. Without quotes it may be a boolean or null too, and if it
is empty, also an empty list or section. A choice may be the tag of a null. -/
def viewScalar (s : Yaml.Scalar) : View Yaml.Node :=
  let isPlain := s.style = .plain
  let isEmpty := isPlain && s.text.isEmpty
  let isNull := isPlain && (s.text.isEmpty || Yaml.isNull s.text)
  let isTagged (name : String) : Bool := s.tag = some (Yaml.commonTag name)
  { isAbsent :=
      if isPlain && isTagged "null" then if Yaml.isNull s.text then some true else none
      else some (isNull && s.tag.isNone)
    text := some s.text
    bool :=
      if isPlain || (s.style = .literal && isTagged "bool") then Yaml.bool? s.text else none
    format := match s.tag.bind Yaml.localName? with
      | some name => if isNull then OutputFormat.ofName? name else none
      | none => OutputFormat.ofName? s.text
    items := if isEmpty then some [] else none
    values? := fun names => if isEmpty then some (names.map fun _ => none) else none }

def viewYaml (d : Yaml.Document) (node : Yaml.Node) : View Yaml.Node :=
  match (d.follow node).1 with
  | .scalar s => viewScalar s
  | .sequence _ items => { items := some items }
  | .mapping _ entries =>
    { values? := View.named? (entries.map fun e => ((d.key? e.1).map Prod.fst, e.2)) }
  | _ => {}

/-- A text without a document sets nothing. -/
def ofYaml? (s : String) : Option Settings := do
  let d ← Yaml.read? s
  match d.root with
  | some root => View.settings? (viewYaml d) root
  | none => some .empty

end FormLayout.Settings
