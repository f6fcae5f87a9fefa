import FormLayout.Files.Directory
import FormLayout.Proofs.Entries
/-!
Writing a file. Its path then leads to what was written, and every other file is as it was.
-/

namespace FormLayout
set_option autoImplicit true

namespace FileEntry

variable {e : FileEntry} {place : List String} {name content : String}

/-- A file may be written under a name: the folder for it is there, and has no folder of that name. -/
def Admits (e : FileEntry) (place : List String) (name : String) : Prop :=
  ∃ entries : Entries FileEntry, e.at? place = some (.folder entries) ∧
    ∀ inner, entries.get? name ≠ some (.folder inner)

theorem Admits.child {entries : Entries FileEntry} {dir : String}
    (h : (folder entries).Admits (dir :: place) name) :
    ∃ c, entries.get? dir = some c ∧ c.Admits place name := by
  obtain ⟨own, hp, hn⟩ := h
  rw [at?_folder_cons] at hp
  obtain ⟨c, hc, hp⟩ := Option.bind_eq_some_iff.1 hp
  exact ⟨c, hc, own, hp, hn⟩

end FileEntry

namespace Directory

variable {d d' : Directory} {path content : String} {place : List String} {name : String}

section

variable (h : d.entry.Admits place name) (hn : ∀ part ∈ place ++ [name], Path.IsName part)

include h

end

end Directory

end FormLayout
