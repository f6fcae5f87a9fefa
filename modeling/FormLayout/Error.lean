import FormLayout.Form.Kind
import FormLayout.Text.Visible
/-!
What can go wrong, with the wording of each failure.
-/

namespace FormLayout

/-- Why a position text is refused. -/
inductive PositionFault where
  | noColon
  | noTarget
  | unknownPlace (word : String)
  deriving DecidableEq, Repr

/-- Where a node of some kind may not stand. -/
inductive ForbiddenPlace where
  | inside (kind : NodeKind) (id : String)
  | atTopLevel (sibling : String)
  deriving DecidableEq, Repr

/-- Why a document is refused. -/
inductive DocumentFault where
  | notTable
  | notTables
  | notColumns
  | notObject (path : String)
  | malformedJson
  | malformedYaml
  | definedTwice (first second : String)
  | tableMissing
  deriving DecidableEq, Repr

/-- The failures of file access. -/
inductive FileFault where
  | missing
  | notDirectory
  | isDirectory
  | nameTooLong
  | unexpectedNul
  | inputMissing
  deriving DecidableEq, Repr

/-- Why settings cannot be loaded or created. -/
inductive SettingsFault where
  | badStart (fault : FileFault)
  | noFile (path : String)
  | cannotFind (path : String) (fault : FileFault)
  | circular (chain : List String)
  | unsupported (path : String)
  | malformed (path : String)
  | exists (name : String)
  deriving DecidableEq, Repr

/-- A failure of this library. -/
inductive Error where
  | unknownSpecialItem (token item : String)
  | misplacedSpecialItem (item palette : String)
  | idCollision (id : String) (existing requested : NodeKind)
  | nodeNotFound (id : String)
  | invalidPosition (position : String) (fault : PositionFault)
  | invalidNesting (child : NodeKind) (place : ForbiddenPlace)
  | invalidDocument (name : String) (fault : DocumentFault)
  | settings (fault : SettingsFault)
  | file (path : String) (fault : FileFault)
  deriving DecidableEq, Repr

/-- The area that a failure belongs to. -/
inductive ErrorKind where
  | grammar
  | nesting
  | position
  | document
  | settings
  | file
  deriving DecidableEq, Repr

def PositionFault.message : PositionFault → String
  | .noColon => "expected '<top|bottom|before|after>:<id>'"
  | .noTarget => "missing target id"
  | .unknownPlace word => "unknown prefix '" ++ word ++ "'"

def ForbiddenPlace.message : ForbiddenPlace → String
  | .inside kind id => "inside " ++ kind.name ++ " '" ++ id ++ "'"
  | .atTopLevel sibling => "next to tab '" ++ sibling ++ "' at the top level"

def DocumentFault.message : DocumentFault → String
  | .notTable => "expected an object"
  | .notTables => "expected an object mapping table names to TCA"
  | .notColumns => "expected an object of column configurations"
  | .notObject path => "'" ++ path ++ "' must be an object"
  | .malformedJson => "JSON error"
  | .malformedYaml => "YAML error"
  | .definedTwice first second => "defined in both " ++ first ++ " and " ++ second
  | .tableMissing => "table not found in input"

def FileFault.message : FileFault → String
  | .missing => "No such file or directory (os error 2)"
  | .notDirectory => "Not a directory (os error 20)"
  | .isDirectory => "Is a directory (os error 21)"
  | .nameTooLong => "File name too long (os error 36)"
  | .unexpectedNul => "file name contained an unexpected NUL byte"
  | .inputMissing => "input does not exist"

def SettingsFault.message : SettingsFault → String
  | .badStart fault => "Invalid path: " ++ fault.message
  | .noFile path => "Config file not found: " ++ path
  | .cannotFind path fault => "Config file not found: " ++ path ++ " (" ++ fault.message ++ ")"
  | .circular chain => "Circular extends chain: " ++ " -> ".intercalate chain
  | .unsupported path =>
    "Unsupported config file extension: " ++ path ++ " (expected .json, .toml, .yaml or .yml)"
  | .malformed path => "Failed to parse '" ++ path ++ "'"
  | .exists name =>
    "Configuration file '" ++ name ++ "' already exists. Use --force to overwrite."

namespace Error

def message : Error → String
  | .unknownSpecialItem token item =>
    "Unknown special item '--" ++ token ++ "--' in show-item entry '" ++ item ++ "'"
  | .misplacedSpecialItem item palette =>
    "Special item '" ++ item ++ "' is not allowed inside palette '" ++ palette ++ "'"
  | .idCollision id existing requested =>
    "Id collision: '" ++ id ++ "' is already used by a " ++ existing.name ++
      " node, cannot create a " ++ requested.name
  | .nodeNotFound id => "Node not found: '" ++ id ++ "'"
  | .invalidPosition position fault =>
    "Invalid position '" ++ position ++ "': " ++ fault.message
  | .invalidNesting child place =>
    "A " ++ child.name ++ " node cannot be placed " ++ place.message
  | .invalidDocument name fault =>
    "Invalid table document '" ++ name ++ "': " ++ fault.message
  | .settings fault => "Configuration error: " ++ fault.message
  | .file path fault => "IO error for path '" ++ path ++ "': " ++ fault.message

/-- The message as a terminal shows it. -/
def report (e : Error) : String := Text.visible e.message

def kind : Error → ErrorKind
  | .unknownSpecialItem _ _ | .misplacedSpecialItem _ _ => .grammar
  | .idCollision _ _ _ | .invalidNesting _ _ => .nesting
  | .nodeNotFound _ | .invalidPosition _ _ => .position
  | .invalidDocument _ _ => .document
  | .settings _ => .settings
  | .file _ _ => .file

/-- A bad position or document concerns one node or table; the others can still be worked on. -/
def isRecoverable (e : Error) : Bool := e.kind = .position || e.kind = .document

end Error

/-- A recoverable failure counts as no result. -/
def recovered {α : Type} : Except Error α → Except Error (Option α)
  | .ok a => .ok (some a)
  | .error e => if e.isRecoverable then .ok none else .error e

end FormLayout
