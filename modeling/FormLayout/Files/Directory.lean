import FormLayout.Entries
import FormLayout.Error
import FormLayout.Files.Path
/-!
A finite tree of folders and text files, with a current folder in it. A path is followed piece by
piece, and the canonical path of what it leads to is made of the names from the top.
-/

namespace FormLayout

inductive FileEntry where
  | file (content : String)
  | folder (entries : List (String × FileEntry))
  deriving Inhabited

namespace FileEntry

/-- Every folder has a name once, and only names that a file or folder can have. -/
inductive Proper : FileEntry → Prop where
  | file (content : String) : Proper (.file content)
  | folder {entries : Entries FileEntry} : entries.Distinct →
      (∀ e ∈ entries, Path.IsName e.1) → (∀ e ∈ entries, Proper e.2) → Proper (.folder entries)

def entries : FileEntry → Entries FileEntry
  | .file _ => []
  | .folder entries => entries

theorem proper_empty : Proper (.folder []) := .folder List.nodup_nil (by simp) (by simp)

theorem Proper.entries {e : FileEntry} (h : e.Proper) : Proper (.folder e.entries) := by
  cases h with
  | file content => exact proper_empty
  | folder hd hn he => exact .folder hd hn he

def child? : FileEntry → String → Option FileEntry
  | .folder entries, name => Entries.get? entries name
  | .file _, _ => none

/-- What stands at the end of a list of names. -/
def at? : FileEntry → List String → Option FileEntry
  | e, [] => some e
  | e, name :: rest =>
    match e.child? name with
    | some c => c.at? rest
    | none => none

theorem at?_folder_cons (entries : Entries FileEntry) (name : String) (rest : List String) :
    (folder entries).at? (name :: rest) = (entries.get? name).bind fun c => c.at? rest := by
  rw [at?, child?]
  cases entries.get? name <;> rfl

theorem at?_append (e : FileEntry) (names more : List String) :
    e.at? (names ++ more) = (e.at? names).bind fun c => c.at? more := by
  induction names generalizing e with
  | nil => rfl
  | cons name names ih =>
    rw [List.cons_append, at?, at?]
    split
    · next c _ => exact ih c
    · rfl

mutual

/-- The names that lead to each file and folder in an entry. -/
def places : FileEntry → List (List String)
  | .file _ => [[]]
  | .folder entries => [] :: placesOf entries

def placesOf : List (String × FileEntry) → List (List String)
  | [] => []
  | (name, e) :: rest => (places e).map (name :: ·) ++ placesOf rest

end

theorem nil_mem_places (e : FileEntry) : [] ∈ e.places := by
  cases e with
  | file content => rw [places]; exact List.mem_singleton_self _
  | folder entries => rw [places]; exact List.mem_cons_self

theorem mem_placesOf {entries : List (String × FileEntry)} {name : String} {c : FileEntry}
    {names : List String} (h : Entries.get? entries name = some c) (hn : names ∈ c.places) :
    name :: names ∈ placesOf entries := by
  induction entries with
  | nil => cases h
  | cons e rest ih =>
    obtain ⟨k, e⟩ := e
    rw [placesOf, List.mem_append]
    rw [Entries.get?] at h
    split at h
    · next hk =>
      cases h
      cases hk
      exact .inl (List.mem_map_of_mem hn)
    · exact .inr (ih h)

theorem mem_places {e : FileEntry} {names : List String} (h : (e.at? names).isSome = true) :
    names ∈ e.places := by
  induction names generalizing e with
  | nil => exact e.nil_mem_places
  | cons name names ih =>
    cases e with
    | file content => cases h
    | folder entries =>
      rw [at?] at h
      split at h
      · next c hc =>
        rw [places]
        exact List.mem_cons_of_mem _ (mem_placesOf hc (ih h))
      · cases h

mutual

/-- The names that lead to each file in an entry, in the order of the entries. -/
def leaves : FileEntry → List (List String)
  | .file _ => [[]]
  | .folder entries => leavesOf entries

def leavesOf : List (String × FileEntry) → List (List String)
  | [] => []
  | (name, e) :: rest => (leaves e).map (name :: ·) ++ leavesOf rest

end

mutual

/-- The same with every folder sorted by name. -/
def sorted : FileEntry → FileEntry
  | .file content => .file content
  | .folder entries => .folder ((sortedEntries entries).mergeSort fun a b => a.1 ≤ b.1)

def sortedEntries : List (String × FileEntry) → List (String × FileEntry)
  | [] => []
  | (name, e) :: rest => (name, sorted e) :: sortedEntries rest

end

/-- Puts a file at the end of a list of names, or keeps what is there if no content is given. Missing
folders are made. -/
def put (content : Option String) : List String → FileEntry → FileEntry
  | [], e =>
    match content with
    | some content => .file content
    | none => e
  | name :: rest, .folder entries =>
    let inner := (Entries.get? entries name).getD (.folder [])
    .folder (Entries.put entries name (inner.put content rest))
  | _ :: _, .file content => .file content

theorem Proper.put {e : FileEntry} (h : e.Proper) (content : Option String) {names : List String}
    (hn : ∀ name ∈ names, Path.IsName name) : (e.put content names).Proper := by
  induction names generalizing e with
  | nil =>
    cases content with
    | some content => exact .file content
    | none => exact h
  | cons name rest ih =>
    rw [List.forall_mem_cons] at hn
    cases h with
    | file content => exact .file content
    | @folder entries hd hnames hproper =>
      have hinner : ((Entries.get? entries name).getD (.folder [])).Proper := by
        cases hg : Entries.get? entries name with
        | none => exact proper_empty
        | some c => exact hproper (name, c) (Entries.mem_of_get? hg)
      refine .folder (hd.put name _) (fun e he => ?_) fun e he => ?_
      · rcases Entries.mem_put he with rfl | he
        · exact hn.1
        · exact hnames e he
      · rcases Entries.mem_put he with rfl | he
        · exact ih hinner hn.2
        · exact hproper e he

end FileEntry

/-- The entries of the top folder, with the names that lead from there to the current folder and the
text that its path is written as. -/
structure Directory where
  label : String
  here : List String
  entries : Entries FileEntry
  proper : (FileEntry.folder entries).Proper

namespace Directory

def entry (d : Directory) : FileEntry := .folder d.entries

/-- One step on the way from the names passed so far. The top folder is the one above itself. -/
def step (d : Directory) (names : List String) (piece : String) : Except FileFault (List String) :=
  match d.entry.at? names with
  | none => .error .missing
  | some (.file _) => .error .notDirectory
  | some (.folder entries) =>
    if piece = "" || piece = "." then .ok names
    else if piece = ".." then .ok names.dropLast
    else if Path.isLongName piece then .error .nameTooLong
    else if Entries.has entries piece then .ok (names ++ [piece])
    else .error .missing

/-- A step from a folder stays there, goes up, or goes on to a file or folder in it. -/
theorem step_ok_iff {d : Directory} {names next : List String} {piece : String} :
    d.step names piece = .ok next ↔ ∃ entries : Entries FileEntry,
      d.entry.at? names = some (.folder entries) ∧
        ((piece = "" ∨ piece = ".") ∧ next = names ∨ piece = ".." ∧ next = names.dropLast ∨
          (piece ≠ "" ∧ piece ≠ "." ∧ piece ≠ ".." ∧ Path.isLongName piece = false) ∧
            entries.has piece = true ∧ next = names ++ [piece]) := by
  rw [step]
  constructor
  · intro h
    split at h
    · cases h
    · cases h
    · next entries he =>
      refine ⟨entries, he, ?_⟩
      split at h
      · next hstay =>
        cases h
        exact .inl ⟨by simpa using hstay, rfl⟩
      · next hstay =>
        have hgo : piece ≠ "" ∧ piece ≠ "." := by simpa using hstay
        split at h
        · next hup =>
          cases h
          exact .inr (.inl ⟨hup, rfl⟩)
        · next hup =>
          split at h
          · cases h
          · next hlong =>
            split at h
            · next hhas =>
              cases h
              exact .inr (.inr ⟨⟨hgo.1, hgo.2, hup, Bool.eq_false_iff.2 hlong⟩, hhas, rfl⟩)
            · cases h
  · rintro ⟨entries, he, ⟨hstay, rfl⟩ | ⟨rfl, rfl⟩ | ⟨⟨hempty, hdot, hup, hlong⟩, hhas, rfl⟩⟩
    · rw [he]
      exact if_pos (by simpa using hstay)
    · rw [he]
      rfl
    · rw [he]
      dsimp only
      rw [if_neg (by simp [hempty, hdot]), if_neg hup, hlong, if_neg Bool.false_ne_true, if_pos hhas]

/-- Every step leads to a file or folder. -/
theorem exists_of_step {d : Directory} {names place : List String} {piece : String}
    (h : d.step names piece = .ok place) : (d.entry.at? place).isSome = true := by
  obtain ⟨entries, he, ⟨_, rfl⟩ | ⟨_, rfl⟩ | ⟨_, hhas, rfl⟩⟩ := step_ok_iff.1 h
  · rw [he]
    rfl
  · cases hl : d.entry.at? names.dropLast with
    | some c => rfl
    | none =>
      rcases List.eq_nil_or_concat names with rfl | ⟨init, last, rfl⟩
      · cases hl
      · rw [List.concat_eq_append, List.dropLast_concat] at hl
        rw [List.concat_eq_append, FileEntry.at?_append, hl] at he
        cases he
  · obtain ⟨c, hc⟩ := Option.isSome_iff_exists.1 hhas
    rw [FileEntry.at?_append, he, Option.bind_some, FileEntry.at?, FileEntry.child?, hc]
    rfl

theorem exists_of_steps {d : Directory} {names place pieces : List String} (hn : pieces ≠ [])
    (h : pieces.foldlM d.step names = .ok place) : (d.entry.at? place).isSome = true := by
  induction pieces generalizing names with
  | nil => exact absurd rfl hn
  | cons piece rest ih =>
    rw [List.foldlM_cons] at h
    cases hs : d.step names piece with
    | error fault =>
      rw [hs] at h
      cases h
    | ok next =>
      rw [hs] at h
      cases rest with
      | nil =>
        cases h
        exact exists_of_step hs
      | cons p ps => exact ih (List.cons_ne_nil _ _) h

/-- Where a path starts, and what is left of it from there. -/
def start (d : Directory) (path : String) : List String × String :=
  if path = d.label then (d.here, ".")
  else
    match Text.after? (d.label ++ "/").toList path.toList with
    | some rest => (d.here, String.ofList rest)
    | none => if Path.isAbsolute path then ([], path) else (d.here, path)

/-- Where a path starts, and its pieces from there on. -/
def way (d : Directory) (path : String) : Except FileFault (List String × List String) :=
  if path = "" then .error .missing
  else if path.toList.contains '\x00' then .error .unexpectedNul
  else if Path.isLong path then .error .nameTooLong
  else .ok ((d.start path).1, Path.pieces (d.start path).2)

theorem pieces_ne_nil {d : Directory} {path : String} {top pieces : List String}
    (h : d.way path = .ok (top, pieces)) : pieces ≠ [] := by
  rw [way] at h
  split at h
  · cases h
  · split at h
    · cases h
    · split at h
      · cases h
      · cases h
        exact mt List.map_eq_nil_iff.1 (Text.pieces_ne_nil _ _)

/-- The names that lead to an existing file or folder. -/
def locate (d : Directory) (path : String) : Except FileFault (List String) :=
  match d.way path with
  | .ok (top, pieces) => pieces.foldlM d.step top
  | .error fault => .error fault

/-- The path that the names from the top make. -/
def pathOf (d : Directory) (names : List String) : String :=
  if names = d.here then d.label
  else if d.here.isPrefixOf names then
    Path.join d.label (Text.join '/' (names.drop d.here.length))
  else "/" ++ Text.join '/' names

/-- The path without dots and detours. -/
def canonical (d : Directory) (path : String) : Except FileFault String :=
  (d.locate path).map d.pathOf

/-- The canonical paths of all files and folders. -/
def paths (d : Directory) : List String := d.entry.places.map d.pathOf

theorem mem_paths {d : Directory} {path file : String} (h : d.canonical path = .ok file) :
    file ∈ d.paths := by
  rw [canonical] at h
  cases hl : d.locate path with
  | error fault =>
    rw [hl] at h
    cases h
  | ok place =>
    rw [hl] at h
    cases h
    apply List.mem_map_of_mem
    apply FileEntry.mem_places
    rw [locate] at hl
    split at hl
    · next hw => exact exists_of_steps (pieces_ne_nil hw) hl
    · cases hl

def entry? (d : Directory) (path : String) : Option FileEntry :=
  match d.locate path with
  | .ok names => d.entry.at? names
  | .error _ => none

def exists? (d : Directory) (path : String) : Bool := (d.entry? path).isSome

def isFile (d : Directory) (path : String) : Bool :=
  match d.entry? path with
  | some (.file _) => true
  | _ => false

def isFolder (d : Directory) (path : String) : Bool :=
  match d.entry? path with
  | some (.folder _) => true
  | _ => false

def read (d : Directory) (path : String) : Except FileFault String := do
  match d.entry.at? (← d.locate path) with
  | some (.file content) => .ok content
  | some (.folder _) => .error .isDirectory
  | none => .error .missing

/-- Puts a file into the directory, or keeps what is there if no content is given. Missing folders are
made. -/
def put (d : Directory) (content : Option String) {names : List String}
    (h : ∀ name ∈ names, Path.IsName name) : Directory where
  label := d.label
  here := d.here
  entries := (d.entry.put content names).entries
  proper := (d.proper.put content h).entries

/-- Writes a file into an existing folder. The last piece of the path must be a name, and other folders
cannot be written to. -/
def write (d : Directory) (path content : String) : Except FileFault Directory := do
  let (top, pieces) ← d.way path
  let place ← (pieces.reverse.dropWhile (· = "")).reverse.dropLast.foldlM d.step top
  let name := pieces.getLastD ""
  match d.entry.at? place with
  | some (.folder entries) =>
    if h : ∀ part ∈ place ++ [name], Path.IsName part then
      if Path.isLongName name then throw .nameTooLong
      else
        match Entries.get? entries name with
        | some (.folder _) => throw .isDirectory
        | _ => return d.put (some content) h
    else throw .isDirectory
  | _ => throw .notDirectory

/-- The paths of the files below a folder, every folder sorted by name. -/
def files (d : Directory) (path : String) : List String :=
  match d.entry? path with
  | some e => e.sorted.leaves.map (Path.below path)
  | none => []

/-- The tree of the given files, whose paths start at the top; no content stands for a folder. -/
def ofFiles (label : String) (here : List String) (files : List (String × Option String)) :
    Directory :=
  let top : Directory := ⟨label, here, [], FileEntry.proper_empty⟩
  let start := top.put none (Path.isName_of_mem_names (Text.join '/' here))
  files.foldl (fun d f => d.put f.2 (Path.isName_of_mem_names f.1)) start

end Directory

end FormLayout
