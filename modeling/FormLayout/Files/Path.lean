import FormLayout.Text.Pieces
/-!
Paths as texts: their parts, the enclosing directory, the name and the extension.
-/

namespace FormLayout.Path

/-- Every piece between slashes, the empty ones too. -/
def pieces (path : String) : List String := Text.split '/' path

def isAbsolute (path : String) : Bool := path.toList.head? = some '/'

/-- A piece of a path that names a file or a folder, and does not only lead somewhere. -/
def IsName (name : String) : Prop :=
  name ≠ "" ∧ name ≠ "." ∧ name ≠ ".." ∧ '/' ∉ name.toList

instance (name : String) : Decidable (IsName name) :=
  inferInstanceAs (Decidable (_ ∧ _ ∧ _ ∧ _))

/-- The names in a path. -/
def names (path : String) : List String := (pieces path).filter fun name => IsName name

theorem isName_of_mem_names (path : String) : ∀ name ∈ names path, IsName name :=
  fun _ h => of_decide_eq_true (List.mem_filter.1 h).2

/-- The pieces that count: a dot counts only in front of a relative path. -/
def parts (path : String) : List String :=
  match pieces path with
  | [] => []
  | first :: rest =>
    let rest := rest.filter fun p => p ≠ "" && p ≠ "."
    if first = "" then rest else first :: rest

/-- Names may have 255 bytes. -/
def isLongName (name : String) : Bool := 255 < name.utf8ByteSize

/-- Paths may have 4095 bytes. -/
def isLong (path : String) : Bool := 4095 < path.utf8ByteSize

/-- A path seen from a directory. -/
def join (directory path : String) : String :=
  if isAbsolute path || directory = "" then path
  else if directory.toList.getLast? = some '/' then directory ++ path
  else directory ++ "/" ++ path

/-- The path that some names make from a directory. -/
def below (directory : String) (names : List String) : String := names.foldl join directory

/-- The enclosing directory; empty when there is none or it goes without saying. -/
def parent (path : String) : String :=
  (if isAbsolute path then "/" else "") ++ Text.join '/' (parts path).dropLast

/-- The last part, if it is a name. -/
def fileName? (path : String) : Option String :=
  match (parts path).getLast? with
  | some name => if name = "." || name = ".." then none else some name
  | none => none

/-- What follows the last dot of the name, if something stands before it. -/
def extension? (path : String) : Option String :=
  (fileName? path).bind fun name =>
    let cs := name.toList.reverse
    match cs.dropWhile (· ≠ '.') with
    | [] | [_] => none
    | _ => some (String.ofList (cs.takeWhile (· ≠ '.')).reverse)

end FormLayout.Path
