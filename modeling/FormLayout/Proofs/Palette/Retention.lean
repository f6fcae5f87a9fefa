import FormLayout.Proofs.Palette.Renaming
/-!
What the items of a type show once the palettes of the type are folded in. Every reference is to a
stored palette. It has the layout it had in the type, unless another palette that came later was
given the same name.
-/

namespace FormLayout
set_option autoImplicit true

namespace Palette

theorem sameLayout_trans (hab : sameLayout canonical a b = true)
    (hbc : sameLayout canonical b c = true) : sameLayout canonical a c = true := by
  rw [sameLayout_iff] at *
  rcases hab with rfl | ⟨hc, hab⟩
  · exact hbc
  · rcases hbc with rfl | ⟨_, hbc⟩
    · exact .inr ⟨hc, hab⟩
    · exact .inr ⟨hc, hab.trans hbc⟩

/-- A palette with another layout was given the name. -/
def Displaced (canonical : Bool) (later : Palettes) (f : Fold) (name layout : String) : Prop :=
  ∃ rival ∈ later, sameLayout canonical rival.2 layout = false ∧ (rival.1, name) ∈ f.renamed

/-- A layout is stored under a name, or that name was given to another palette. -/
def Settled (canonical : Bool) (later : Palettes) (f : Fold) (name layout : String) : Prop :=
  holds canonical f.shared name layout = true ∨ Displaced canonical later f name layout

/-- What an item of a type has become. -/
inductive Retained (canonical : Bool) (own : Palettes) (result : Fold) : Item → Item → Prop where
  | other : item.reference? = none → Retained canonical own result item item
  | palette : item.reference? = some name → own = before ++ (name, layout) :: later →
      result.shared.get? new = some existing →
      sameLayout canonical existing layout = true ∨ Displaced canonical later result new layout →
      Retained canonical own result item (item.dropLast ++ [new])

variable {canonical : Bool} {typeKey name layout : String} {f : Fold}

/-- A palette is stored under the name that its references get. -/
theorem settled_add (canonical : Bool) (typeKey : String) (hself : follow f.renamed name = name)
    (layout : String) : Settled canonical [] (f.add canonical typeKey name layout)
      (follow (f.add canonical typeKey name layout).renamed name) layout := by
  apply Or.inl
  rcases add_cases canonical typeKey f name layout with ⟨_, h⟩ | ⟨_, h⟩ <;> rw [h]
  · rw [hself]
    exact holds_stored canonical f.shared name layout
  · rw [follow_append, hself, follow_singleton, if_pos rfl]
    exact holds_stored canonical f.shared _ layout

/-- One palette more either leaves the name and its layout alone, or has the layout, or takes the
name over. -/
theorem Settled.add {later : Palettes}
    (h : Settled canonical later f (follow f.renamed name) layout) (rival : String × String) :
    Settled canonical (later ++ [rival]) (f.add canonical typeKey rival.1 rival.2)
      (follow (f.add canonical typeKey rival.1 rival.2).renamed name) layout := by
  have hmore {g : Fold} {x : String} (hg : f.renamed <+: g.renamed)
      (hd : Displaced canonical later f x layout) :
      Displaced canonical (later ++ [rival]) g x layout := by
    obtain ⟨r, hr, hne, hm⟩ := hd
    exact ⟨r, List.mem_append_left _ hr, hne, hg.subset hm⟩
  rcases add_cases canonical typeKey f rival.1 rival.2 with ⟨hfree, ha⟩ | ⟨_, ha⟩ <;> rw [ha]
  · -- A name is stored as it is only where it is free or has the layout already.
    exact h.imp (holds_stored_of_holds hfree) (hmore (List.prefix_refl _))
  · have hprefix : f.renamed <+: f.renamed ++ [(rival.1, renamedId typeKey rival.1)] :=
      List.prefix_append _ _
    by_cases hn : follow (f.renamed ++ [(rival.1, renamedId typeKey rival.1)]) name =
        renamedId typeKey rival.1
    · dsimp only
      rw [hn]
      by_cases hsame : sameLayout canonical rival.2 layout = true
      · obtain ⟨existing, hget, he⟩ := holds_iff.1
          (holds_stored canonical f.shared (renamedId typeKey rival.1) rival.2)
        exact .inl (holds_iff.2 ⟨existing, hget, sameLayout_trans he hsame⟩)
      · exact .inr ⟨rival, by simp, by simpa using hsame, by simp⟩
    · have hkept : follow (f.renamed ++ [(rival.1, renamedId typeKey rival.1)]) name =
          follow f.renamed name := by
        rw [follow_append, follow_singleton] at hn ⊢
        split at hn
        · exact absurd rfl hn
        · next hne => exact if_neg hne
      dsimp only
      rw [hkept] at hn ⊢
      refine h.imp (fun hh => ?_) (hmore hprefix)
      rw [holds_stored_of_ne hn]
      exact hh

/-- Every palette of a type is settled once all of them are in. -/
theorem settled_addAll {before later : Palettes}
    (hd : Entries.Distinct (before ++ (name, layout) :: later)) (canonical : Bool)
    (typeKey : String) (start : Palettes) (showItem : String) :
    let f := addAll canonical typeKey ⟨start, showItem, []⟩ (before ++ (name, layout) :: later)
    Settled canonical later f (follow f.renamed name) layout := by
  induction later using List.reverseRecOn with
  | nil =>
    obtain ⟨_, hnew⟩ := Entries.distinct_concat hd
    dsimp only
    rw [addAll_concat]
    exact settled_add canonical typeKey
      (follow_addAll_of_not_mem canonical typeKey start showItem hnew) layout
  | append_singleton later rival ih =>
    rw [← List.cons_append, ← List.append_assoc] at hd ⊢
    obtain ⟨hd, _⟩ := Entries.distinct_concat hd
    dsimp only
    rw [addAll_concat]
    exact (ih hd).add rival

/-- The items of a type are the same in the same order after its palettes were folded in, and what
the palette items name has the layout that it had in the type, unless it was displaced. -/
theorem retained_fold {own : Palettes} {showItem : String} (hk : Text.Plain typeKey)
    (hd : own.Distinct) (hown : ∀ name ∈ own.names, Text.Plain name)
    (href : ∀ item ∈ ShowItem.parse showItem, ∀ name ∈ item.reference?, name ∈ own.names)
    (canonical : Bool) (shared : Palettes) :
    let result := fold canonical typeKey shared own showItem
    List.Forall₂ (Retained canonical own result) (ShowItem.parse showItem)
      (ShowItem.parse result.showItem) := by
  have hfold : fold canonical typeKey shared own showItem =
      addAll canonical typeKey ⟨shared, showItem, []⟩ own := rfl
  have hparse : ShowItem.parse (addAll canonical typeKey ⟨shared, showItem, []⟩ own).showItem = _ :=
    parse_showItem_addAll hk hown
  have hstored : ∀ e ∈ (addAll canonical typeKey ⟨shared, showItem, []⟩ own).renamed, _ :=
    (mem_names_addAll own).2 (List.forall_mem_nil _)
  dsimp only
  rw [hfold, hparse, List.forall₂_map_right_iff, List.forall₂_same]
  intro item hm
  cases hr : item.reference? with
  | none =>
    rw [Item.redirect_of_none hr]
    exact .other hr
  | some name =>
    obtain ⟨layout, hget⟩ := Entries.mem_names_iff.1 (href item hm name hr)
    obtain ⟨before, later, rfl⟩ := List.append_of_mem (Entries.mem_of_get? hget)
    have hs := settled_addAll hd canonical typeKey shared showItem
    dsimp only at hs
    generalize addAll canonical typeKey ⟨shared, showItem, []⟩ _ = f at *
    rw [Item.redirect_eq, hr]
    rcases hs with hh | hs
    · obtain ⟨existing, hexisting, hsame⟩ := holds_iff.1 hh
      exact .palette hr rfl hexisting (.inl hsame)
    · have hdisplaced := hs
      obtain ⟨rival, _, _, hrenamed⟩ := hs
      obtain ⟨existing, hexisting⟩ := Entries.mem_names_iff.1 (hstored _ hrenamed)
      exact .palette hr rfl hexisting (.inr hdisplaced)

/-- A reference with blanks around it is renamed, another one stays, and both layouts are kept. -/
theorem retained_fold_renamed :
    let own : Palettes := [("p", "a"), ("q", "b")]
    let showItem := " --palette-- ; L ; p , x, --palette--;;q"
    let result := fold true "1" [("p", "c")] own showItem
    List.Forall₂ (Retained true own result) (ShowItem.parse showItem)
        (ShowItem.parse result.showItem) ∧
      ShowItem.parse result.showItem =
        [["--palette--", "L", "1-p"], ["x"], ["--palette--", "", "q"]] ∧
      result.shared.get? "1-p" = some "a" ∧ result.shared.get? "q" = some "b" := by
  have hparse : ShowItem.parse " --palette-- ; L ; p , x, --palette--;;q" =
      [["--palette--", "L", "p"], ["x"], ["--palette--", "", "q"]] := by decide +kernel
  have hd : Entries.Distinct [("p", "a"), ("q", "b")] := (by decide : ["p", "q"].Nodup)
  refine ⟨retained_fold (by decide +kernel) hd (by decide +kernel) ?_ _ _,
    by decide +kernel, by decide +kernel, by decide +kernel⟩
  rw [hparse]
  decide +kernel

/-- A renamed palette takes the place of a palette of the type that has its new name. -/
theorem fold_replaces_own :
    let own : Palettes := [("1-p", "b"), ("p", "a")]
    let showItem := "--palette--;;1-p"
    let result := fold true "1" [("p", "c")] own showItem
    Text.Plain "1" ∧ own.Distinct ∧ (∀ name ∈ own.names, Text.Plain name) ∧
      (∀ item ∈ ShowItem.parse showItem, ∀ name ∈ item.reference?, name ∈ own.names) ∧
      ShowItem.parse showItem = [["--palette--", "", "1-p"]] ∧ own.get? "1-p" = some "b" ∧
      ShowItem.parse result.showItem = [["--palette--", "", "1-p"]] ∧
      result.shared.get? "1-p" = some "a" ∧ sameLayout true "a" "b" = false := by
  have hd : Entries.Distinct [("1-p", "b"), ("p", "a")] := (by decide : ["1-p", "p"].Nodup)
  have hparse : ShowItem.parse "--palette--;;1-p" = [["--palette--", "", "1-p"]] := by
    decide +kernel
  refine ⟨by decide +kernel, hd, by decide +kernel, ?_, hparse, rfl, by decide +kernel,
    by decide +kernel, by decide +kernel⟩
  rw [hparse]
  decide +kernel

end Palette

end FormLayout
