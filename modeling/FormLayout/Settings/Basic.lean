import FormLayout.Document.Value
import FormLayout.Options
/-!
Settings: what may be set, the defaults of what is not, and how settings are extended by others.
-/

namespace FormLayout

/-- The format of compiled documents. -/
inductive OutputFormat where
  | json
  | yaml
  deriving DecidableEq, Repr

def OutputFormat.name : OutputFormat → String
  | .json => "json"
  | .yaml => "yaml"

def OutputFormat.ofName? (name : String) : Option OutputFormat :=
  if name = "json" then some .json else if name = "yaml" then some .yaml else none

structure CompilerSettings where
  defaultTabLabel : Option String
  baseTypeKey : Option String
  canonicalPalettes : Option Bool
  deriving DecidableEq, Repr

structure OutputSettings where
  format : Option OutputFormat
  pretty : Option Bool
  deriving DecidableEq, Repr

/-- The settings of one file. The schema, the root mark and the list of extended files belong to
this file alone. -/
structure Settings where
  schema : Option String
  root : Option Bool
  extended : Option (List String)
  compiler : Option CompilerSettings
  output : Option OutputSettings
  deriving DecidableEq, Repr

/-- Settings that are set win. -/
def CompilerSettings.orElse (c other : CompilerSettings) : CompilerSettings :=
  ⟨c.defaultTabLabel <|> other.defaultTabLabel, c.baseTypeKey <|> other.baseTypeKey,
    c.canonicalPalettes <|> other.canonicalPalettes⟩

/-- Settings that are set win. -/
def OutputSettings.orElse (o other : OutputSettings) : OutputSettings :=
  ⟨o.format <|> other.format, o.pretty <|> other.pretty⟩

namespace Settings

def empty : Settings := ⟨none, none, none, none, none⟩

/-- What a new settings file holds. -/
def starter : Settings :=
  ⟨none, some true, none, some ⟨some "general", none, some true⟩, some ⟨some .json, some true⟩⟩

/-- Joins two sections, of which the first wins. -/
def section? {α : Type} (join : α → α → α) : Option α → Option α → Option α
  | some a, some b => some (join a b)
  | some a, none => some a
  | none, b => b

/-- Adds what other settings set and these do not. -/
def extend (s other : Settings) : Settings :=
  { s with
    compiler := section? CompilerSettings.orElse s.compiler other.compiler
    output := section? OutputSettings.orElse s.output other.output }

/-- The options of the compiler, with the defaults of what is not set. -/
def options (s : Settings) : Options :=
  let defaults : Options := {}
  match s.compiler with
  | none => defaults
  | some c =>
    { defaultTabLabel := c.defaultTabLabel.getD defaults.defaultTabLabel
      baseTypeKey := c.baseTypeKey
      canonicalPalettes := c.canonicalPalettes.getD defaults.canonicalPalettes }

def format (s : Settings) : OutputFormat := (s.output.bind OutputSettings.format).getD .json

def pretty (s : Settings) : Bool := (s.output.bind OutputSettings.pretty).getD true

/-- The fields that have a value. -/
def present (fields : List (String × Option Value)) : Value :=
  .object (fields.filterMap fun e => e.2.map fun v => (e.1, v))

/-- The document of the settings; what is not set is left out. -/
def toValue (s : Settings) : Value :=
  present [
    ("$schema", s.schema.map .string),
    ("root", s.root.map .bool),
    ("extends", s.extended.map .ofStrings),
    ("compiler", s.compiler.map fun c => present [
      ("defaultTabLabel", c.defaultTabLabel.map .string),
      ("baseTypeKey", c.baseTypeKey.map .string),
      ("canonicalPaletteCompare", c.canonicalPalettes.map .bool)]),
    ("output", s.output.map fun o => present [
      ("format", o.format.map fun f => .string f.name),
      ("pretty", o.pretty.map .bool)])]

/-- The settings in effect, defaults included. -/
def resolvedValue (s : Settings) : Value :=
  let options := s.options
  .object [
    ("compiler", .object [
      ("defaultTabLabel", .string options.defaultTabLabel),
      ("baseTypeKey", (options.baseTypeKey.map Value.string).getD .null),
      ("canonicalPaletteCompare", .bool options.canonicalPalettes)]),
    ("output", .object [
      ("format", .string s.format.name),
      ("pretty", .bool s.pretty)])]

end Settings

end FormLayout
