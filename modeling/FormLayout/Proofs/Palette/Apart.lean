import FormLayout.Proofs.Palette.Fold
/-!
Folding palettes where no new name is the name of a palette already: what is stored stays, and each
palette keeps its name or gets the one that is made for it.
-/

namespace FormLayout
set_option autoImplicit true

namespace Palette

variable {canonical : Bool} {typeKey : String} {start own : Palettes} {showItem : String}

/-- Palettes that are stored with their layouts are folded in without any change. -/
theorem addAll_eq_self {f : Fold} (h : ∀ e ∈ own, holds canonical f.shared e.1 e.2 = true) :
    addAll canonical typeKey f own = f := by
  induction own with
  | nil => rfl
  | cons e rest ih =>
    rw [List.forall_mem_cons] at h
    rw [addAll, List.foldl_cons, Fold.add, if_pos h.1]
    exact ih h.2

theorem distinct_addAll {f : Fold} (h : f.shared.Distinct) (own : Palettes) :
    (addAll canonical typeKey f own).shared.Distinct := by
  induction own generalizing f with
  | nil => exact h
  | cons e rest ih =>
    rw [addAll, List.foldl_cons]
    apply ih
    have hstored (name : String) : (stored canonical f.shared name e.2).Distinct := by
      rw [stored]
      split
      · exact h
      · exact h.put name e.2
    rcases add_cases canonical typeKey f e.1 e.2 with ⟨_, ha⟩ | ⟨_, ha⟩ <;> rw [ha]
    · exact hstored e.1
    · exact hstored (renamedId typeKey e.1)

theorem addAll_apart (canonical : Bool) (showItem : String) (hown : own.Distinct)
    (hhas : ∀ name ∈ own.names, start.has name = true)
    (hnew : ∀ a ∈ own.names, ∀ b ∈ own.names, renamedId typeKey a ≠ b) :
    let f := addAll canonical typeKey ⟨start, showItem, []⟩ own
    (∀ a ∈ own.names, follow f.renamed a = a ∨ follow f.renamed a = renamedId typeKey a) ∧
      ∀ name, (∀ a ∈ own.names, name ≠ renamedId typeKey a) →
        f.shared.get? name = start.get? name := by
  induction own using List.reverseRecOn with
  | nil => exact ⟨fun _ hm => (nomatch hm), fun _ _ => rfl⟩
  | append_singleton init last ih =>
    have hinit {a : String} (ha : a ∈ Entries.names init) : a ∈ Entries.names (init ++ [last]) :=
      Entries.mem_names_concat.2 (.inl ha)
    have hlast : last.1 ∈ Entries.names (init ++ [last]) := Entries.mem_names_concat.2 (.inr rfl)
    obtain ⟨hd, hother⟩ := Entries.distinct_concat hown
    obtain ⟨hends, hkept⟩ := ih hd (fun a ha => hhas a (hinit ha))
      fun a ha b hb => hnew a (hinit ha) b (hinit hb)
    have hself := follow_addAll_of_not_mem canonical typeKey start showItem hother
    rw [addAll_concat]
    generalize addAll canonical typeKey ⟨start, showItem, []⟩ init = f at *
    have hget : f.shared.get? last.1 = start.get? last.1 :=
      hkept last.1 fun a ha he => hnew a (hinit ha) last.1 hlast he.symm
    rcases add_cases canonical typeKey f last.1 last.2 with ⟨hfree, h⟩ | ⟨_, h⟩ <;> rw [h] <;>
      dsimp only
    · have hheld : holds canonical f.shared last.1 last.2 = true := by
        refine hfree.resolve_right fun hnone => ?_
        have hh := hhas last.1 hlast
        rw [Entries.has, ← hget, hnone] at hh
        cases hh
      constructor
      · intro a ha
        rcases Entries.mem_names_concat.1 ha with ha | rfl
        · exact hends a ha
        · exact .inl hself
      · intro name hn
        rw [stored, if_pos hheld]
        exact hkept name fun a ha => hn a (hinit ha)
    · constructor
      · intro a ha
        rw [follow_append, follow_singleton]
        rcases Entries.mem_names_concat.1 ha with ha | rfl
        · have hne : follow f.renamed a ≠ last.1 := by
            rcases hends a ha with hf | hf <;> rw [hf]
            · exact fun hx => hother (hx ▸ ha)
            · exact hnew a (hinit ha) last.1 hlast
          rw [if_neg hne]
          exact hends a ha
        · rw [hself, if_pos rfl]
          exact .inr rfl
      · intro name hn
        rw [get?_stored_of_ne (hn last.1 hlast)]
        exact hkept name fun a ha => hn a (hinit ha)

end Palette

end FormLayout
