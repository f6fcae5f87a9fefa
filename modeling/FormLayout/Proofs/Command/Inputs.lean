import FormLayout.Command.Compile
import FormLayout.Proofs.Files.Discovery
import FormLayout.Proofs.Files.Path
/-!
The files that are compiled: the given one, or all documents below the given folder but settings
files, in the order of the names that lead to them.
-/

namespace FormLayout.Compile
set_option autoImplicit true

/-- A file of this name is a document: the name has one of their extensions, in any casing. -/
def NamesDocument (name : String) : Prop :=
  ∃ front extension, front ≠ "" ∧ name = front ++ "." ++ extension ∧
    Text.lower extension ∈ ["json", "yaml", "yml"]

/-- What stands at the end of some names below the input is a file to compile: the input itself, or a
document below it that is no settings file. -/
def IsInput (d : Directory) (input : String) (names : List String) : Prop :=
  ∃ e content, d.entry? input = some e ∧ e.at? names = some (.file content) ∧
    ∀ name ∈ names.getLast?, NamesDocument name ∧ name ∉ Settings.fileNames

/-- The places of the files to compile, and what the files hold. -/
structure Inputs (d : Directory) (input : String) (places : List (List String))
    (docs : List Value) : Prop where
  sorted : places.Pairwise (· < ·)
  mem_iff {names : List String} : names ∈ places ↔ IsInput d input names
  distinct : (places.map (Path.below input)).Nodup
  read : List.Forall₂ (fun names v => Documents.read d (Path.below input names) = .ok v) places docs

variable {d : Directory} {input : String} {e : FileEntry} {names : List String}

/-- A directory leaves no choice of the files to compile. -/
theorem Inputs.unique (h : Inputs d input places docs) (h' : Inputs d input places' docs') :
    places = places' ∧ docs = docs' := by
  have hperm : places.Perm places' :=
    (List.perm_ext_iff_of_nodup h.sorted.nodup h'.sorted.nodup).2 fun names =>
      h.mem_iff.trans h'.mem_iff.symm
  have hplaces : places = places' := hperm.eq_of_pairwise
    (fun a b _ _ hab hba => absurd hba (List.lt_asymm hab)) h.sorted h'.sorted
  subst hplaces
  have hunique : Relator.RightUnique fun names v =>
      Documents.read d (Path.below input names) = .ok v := by
    intro names v w hv hw
    exact Except.ok.inj (hv.symm.trans hw)
  exact ⟨rfl, hunique.forall₂ h.read h'.read⟩

end FormLayout.Compile
