import FormLayout.Files.Directory
import FormLayout.Settings.Formats
/-!
Loading settings from files: finding the file, reading it by its extension, and following the files
that it extends, depth first. A file may be extended on several ways, but not by itself, so there are
no more steps on the way to a file than there are files.
-/

namespace FormLayout.Settings

/-- The names of settings files, the ones to be tried first in front. -/
def fileNames : List String :=
  [".tcaformrc.json", ".tcaformrc.toml", "tcaform.yaml", "tcaform.yml", "tcaform.json"]

/-- The settings of one file alone. -/
def readFile (d : Directory) (path : String) : Except Error Settings :=
  match d.read path with
  | .error fault => .error (.file path fault)
  | .ok content =>
    let parsed (s : Option Settings) : Except Error Settings :=
      match s with
      | some s => .ok s
      | none => .error (.settings (.malformed path))
    match Path.extension? path with
    | some "json" => parsed (ofJson? content)
    | some "toml" => parsed (ofToml? content)
    | some "yaml" | some "yml" => parsed (ofYaml? content)
    | _ => .error (.settings (.unsupported path))

/-- The files that settings are loaded from: the canonical paths of paths, and what the files hold
by themselves. -/
structure Source where
  files : List String
  canonical : String → Except FileFault String
  read : String → Except Error Settings
  canonical_mem {path file : String} : canonical path = .ok file → file ∈ files

namespace Source

/-- The path of a file that another file extends. -/
def target (file parent : String) : String := Path.join (Path.parent file) parent

/-- How many files are not on a chain. -/
def left (src : Source) (chain : List String) : Nat := (src.files.filter (· ∉ chain)).length

theorem left_lt {src : Source} {chain : List String} {path file : String}
    (h : src.canonical path = .ok file) (hc : file ∉ chain) :
    src.left (chain ++ [file]) < src.left chain := by
  have hfilter : src.files.filter (· ∉ chain ++ [file]) =
      (src.files.filter (· ∉ chain)).filter (· ≠ file) := by
    rw [List.filter_filter]
    apply List.filter_congr
    intro x _
    simp [and_comm]
  rw [left, left, hfilter]
  apply List.length_filter_lt_length_iff_exists.2
  exact ⟨file, List.mem_filter.2 ⟨src.canonical_mem h, by simpa using hc⟩, by simp⟩

/-- The settings of a file with those of the files it extends. The chain holds the files on the way
here, none of which may come again. -/
def loadChain (src : Source) (chain : List String) (path : String) : Except Error Settings :=
  match _h : src.canonical path with
  | .error fault => .error (.settings (.cannotFind path fault))
  | .ok file =>
    if _hc : file ∈ chain then .error (.settings (.circular (chain ++ [file])))
    else
      match src.read file with
      | .error e => .error e
      | .ok s =>
        (s.extended.getD []).foldlM (fun s parent =>
          (loadChain src (chain ++ [file]) (target file parent)).map s.extend) s
termination_by src.left chain
decreasing_by exact left_lt _h _hc

def load (src : Source) (path : String) : Except Error Settings := src.loadChain [] path

end Source

def source (d : Directory) : Source where
  files := d.paths
  canonical := d.canonical
  read := readFile d
  canonical_mem := Directory.mem_paths

def loadFile (d : Directory) (path : String) : Except Error Settings := (source d).load path

/-- The settings file nearest to some names, on the way up to the root. -/
def nearest? (d : Directory) (names : List String) : Nat → Option String
  | 0 => none
  | n + 1 =>
    let folder := d.pathOf (names.take n)
    match fileNames.find? fun name => d.isFile (Path.join folder name) with
    | some name => some (Path.join folder name)
    | none => nearest? d names n

/-- Looks for a settings file from a place upward. -/
def discover (d : Directory) (start : String) : Except Error (Option String) :=
  match d.locate start with
  | .error fault => .error (.settings (.badStart fault))
  | .ok names => .ok (nearest? d names (names.length + 1))

/-- Loads the given file, or the one that is found from a place upward, or the defaults. -/
def load (d : Directory) (path : Option String) (start : String) : Except Error Settings :=
  match path with
  | some path => if d.exists? path then loadFile d path else .error (.settings (.noFile path))
  | none =>
    match discover d start with
    | .error e => .error e
    | .ok none => .ok .empty
    | .ok (some file) => loadFile d file

end FormLayout.Settings
