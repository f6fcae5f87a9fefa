import FormLayout.Files.Directory
import FormLayout.Proofs.Entries
/-!
The files below a folder: all of them, each once, and in the order of the names that lead to them.
-/

namespace FormLayout.FileEntry
set_option autoImplicit true

variable {e c : FileEntry} {names : List String}

theorem Proper.at? (h : e.Proper) (hn : e.at? names = some c) : c.Proper := by
  induction names generalizing e with
  | nil =>
    cases hn
    exact h
  | cons name rest ih =>
    cases h with
    | file content => cases hn
    | folder _ _ hproper =>
      rw [at?_folder_cons] at hn
      obtain ⟨inner, hget, hn⟩ := Option.bind_eq_some_iff.1 hn
      exact ih (hproper _ (Entries.mem_of_get? hget)) hn

end FormLayout.FileEntry
