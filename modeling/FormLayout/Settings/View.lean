import FormLayout.Settings.Basic
/-!
The reading of settings from the nodes of a file. What a node can be read as is its view; formats
differ in the views of their nodes, and in nothing else.
-/

namespace FormLayout

/-- What a node can be read as. -/
structure View (α : Type) where
  /-- Whether the node stands for a value that is not set; none if it can stand for nothing. -/
  isAbsent : Option Bool := some false
  text : Option String := none
  bool : Option Bool := none
  format : Option OutputFormat := none
  items : Option (List α) := none
  /-- The nodes of the given names in a section. -/
  values? : List String → Option (List (Option α)) := fun _ => none

namespace View

variable {α : Type}

/-- The nodes of some names, none of which may be given twice. Other entries do not count, but all
of them must have a name. -/
def named? (entries : List (Option String × α)) (names : List String) :
    Option (List (Option α)) :=
  if entries.any fun e => e.1.isNone then none
  else
    names.mapM fun name =>
      match entries.filter fun e => e.1 = some name with
      | [] => some none
      | [e] => some (some e.2)
      | _ => none

/-- A value that need not be set. -/
def optional? {β : Type} (view : α → View α) (read : α → Option β) : Option α → Option (Option β)
  | none => some none
  | some node =>
    match (view node).isAbsent with
    | none => none
    | some true => some none
    | some false => (read node).map some

variable (view : α → View α)

def text? (node : α) : Option String := (view node).text

def bool? (node : α) : Option Bool := (view node).bool

def texts? (node : α) : Option (List String) :=
  (view node).items.bind fun items => items.mapM (text? view)

def compiler? (node : α) : Option CompilerSettings := do
  match ← (view node).values? ["defaultTabLabel", "baseTypeKey", "canonicalPaletteCompare"] with
  | [label, key, canonical] =>
    return ⟨← optional? view (text? view) label, ← optional? view (text? view) key,
      ← optional? view (bool? view) canonical⟩
  | _ => none

def output? (node : α) : Option OutputSettings := do
  match ← (view node).values? ["format", "pretty"] with
  | [format, pretty] =>
    return ⟨← optional? view (fun node => (view node).format) format,
      ← optional? view (bool? view) pretty⟩
  | _ => none

def settings? (node : α) : Option Settings := do
  match ← (view node).values? ["$schema", "root", "extends", "compiler", "output"] with
  | [schema, root, extended, compiler, output] =>
    return ⟨← optional? view (text? view) schema, ← optional? view (bool? view) root,
      ← optional? view (texts? view) extended, ← optional? view (compiler? view) compiler,
      ← optional? view (output? view) output⟩
  | _ => none

end View

end FormLayout
