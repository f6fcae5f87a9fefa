import FormLayout.Proofs.Column.Merge
import Mathlib.Data.List.Induction
/-!
What reducing the columns of a type gives for each of them, when every real column has a base.
-/

namespace FormLayout
set_option autoImplicit true
open Value

namespace Column

/-- What has to be written over a known configuration to come to another one. -/
def override? (known config : Fields) : Option Fields :=
  if equal (.object known) (.object config) = true ∨ diff known config = [] then none
  else some (diff known config)

theorem override?_self {known : Fields} (h : Proper (.object known)) :
    override? known known = none := if_pos (.inl (equal_refl h))

theorem override?_eq_some_iff {known config : Fields} : override? known config = some change ↔
    ¬(equal (.object known) (.object config) = true ∨ diff known config = []) ∧
      diff known config = change := by
  rw [override?]
  split
  · next h => exact ⟨(nomatch ·), fun hc => absurd h hc.1⟩
  · next h => exact ⟨fun hc => ⟨h, Option.some.inj hc⟩, fun hc => congrArg some hc.2⟩

theorem proper_override? {known config : Fields} (h : Proper (.object config))
    (hc : override? known config = some change) : Proper (.object change) := by
  rw [← (override?_eq_some_iff.1 hc).2]
  exact proper_diff known h

/-- What was written over a known configuration is found again. -/
theorem override?_merge {known config : Fields} (hk : Proper (.object known))
    (h : Proper (.object config)) (hc : override? known config = some change) :
    ∃ again, override? known (merge known change) = some again ∧
      equal (.object again) (.object change) = true := by
  obtain ⟨hneither, rfl⟩ := override?_eq_some_iff.1 hc
  have hm : Proper (.object (merge known (diff known config))) :=
    proper_merge hk (proper_diff known h)
  have hsame := diff_merge_diff hk h
  have hne' : diff known (merge known (diff known config)) ≠ [] :=
    fun hnil => hneither (.inr ((eq_nil_iff_of_equal hsame).1 hnil))
  have hagain : ¬(equal (.object known) (.object (merge known (diff known config))) = true ∨
      diff known (merge known (diff known config)) = []) := by
    rintro (he | hnil)
    · exact hne' (diff_of_equal hk hm he)
    · exact hne' hnil
  exact ⟨_, override?_eq_some_iff.2 ⟨hagain, rfl⟩, hsame⟩

theorem Reduction.add_known (isReal : String → Bool) {r : Reduction} {id : String} {known : Fields}
    (h : r.base.get? id = some known) (config : Fields) : r.add isReal id config =
      match override? known config with
      | some change => { r with overrides := r.overrides.put id change }
      | none => r := by
  rw [add, h, override?]
  dsimp only
  by_cases he : equal (.object known) (.object config) = true
  · rw [if_pos he, if_pos (.inl he)]
  · rw [if_neg he]
    cases diff known config with
    | nil => rw [if_pos (.inr rfl)]
    | cons f fs => rw [if_neg (by simpa using he)]

theorem Reduction.add_unknown {isReal : String → Bool} {r : Reduction} {id : String}
    (h : r.base.get? id = none) (hreal : isReal id = false) (config : Fields) :
    r.add isReal id config = { r with base := r.base.put id config } := by
  rw [add, h]
  dsimp only
  rw [if_neg (by simp [hreal])]

/-- The outcome of reducing columns: those that the base lacks are added to it, and the others are
overrides as far as they differ. -/
structure Reduces (base columns : Columns) (r : Reduction) : Prop where
  get?_base (id : String) : r.base.get? id = (base.get? id).or (columns.get? id)
  get?_overrides (id : String) : r.overrides.get? id =
    (base.get? id).bind fun known => (columns.get? id).bind (override? known)
  distinct_base : r.base.Distinct
  distinct_overrides : r.overrides.Distinct
  base_eq : (∀ id ∈ columns.names, base.has id = true) → r.base = base

variable {isReal : String → Bool} {base columns : Columns}

theorem reduces_of_equal (hb : base.Distinct) (hc : columns.Distinct)
    (h : base.equal columns = true) : Reduces base columns ⟨base, []⟩ := by
  have hrel := (equal_ofFields_iff hb hc).1 h
  refine ⟨fun id => ?_, fun id => ?_, hb, List.nodup_nil, fun _ => rfl⟩
  · have hid := hrel id
    cases hx : base.get? id with
    | some known => rfl
    | none =>
      rw [hx] at hid
      exact (eq_none_of_rel hid).symm
  · have hid := hrel id
    cases hx : base.get? id with
    | none => rfl
    | some known =>
      obtain ⟨config, hconfig, he⟩ := exists_of_rel (hx ▸ hid)
      rw [hconfig]
      exact (if_pos (.inl he)).symm

theorem get?_concat {init : Columns} {name : String} (hnone : init.get? name = none)
    (config : Fields) (id : String) :
    Entries.get? (init ++ [(name, config)]) id =
      if id = name then some config else init.get? id := by
  rw [Entries.get?_append, Entries.get?, Entries.get?]
  by_cases hx : id = name
  · rw [if_pos hx.symm, if_pos hx, hx, hnone, Option.none_or]
  · rw [if_neg (Ne.symm hx), if_neg hx, Option.or_none]

theorem Reduces.add_dummy {init : Columns} {name : String} (h : Reduces base init r)
    (hnone : init.get? name = none) (hk : base.get? name = none) (config : Fields) :
    Reduces base (init ++ [(name, config)]) { r with base := r.base.put name config } := by
  refine ⟨fun id => ?_, fun id => ?_, h.distinct_base.put name config, h.distinct_overrides,
    fun hall => ?_⟩
  · rw [get?_concat hnone, Entries.get?_put, h.get?_base]
    split
    · next hx => rw [hx, hk, Option.none_or]
    · rfl
  · rw [get?_concat hnone, h.get?_overrides]
    split
    · next hx =>
      rw [hx, hk]
      rfl
    · rfl
  · have hhas := hall name (by simp [Entries.names])
    rw [Entries.has, hk] at hhas
    cases hhas

theorem Reduces.add_known {init : Columns} {name : String} {known : Fields}
    (h : Reduces base init r) (hnone : init.get? name = none) (hk : base.get? name = some known)
    (config : Fields) : Reduces base (init ++ [(name, config)])
      (match override? known config with
      | some change => { r with overrides := r.overrides.put name change }
      | none => r) := by
  have hbase (id : String) : r.base.get? id =
      (base.get? id).or (Entries.get? (init ++ [(name, config)]) id) := by
    rw [get?_concat hnone, h.get?_base]
    split
    · next hx => rw [hx, hk, Option.some_or, Option.some_or]
    · rfl
  have hsame (hall : ∀ id ∈ Entries.names (init ++ [(name, config)]), base.has id = true) :
      r.base = base := by
    apply h.base_eq
    intro id hm
    apply hall
    exact Entries.mem_names_concat.2 (.inl hm)
  cases ho : override? known config with
  | none =>
    refine ⟨hbase, fun id => ?_, h.distinct_base, h.distinct_overrides, hsame⟩
    rw [get?_concat hnone, h.get?_overrides]
    split
    · next hx =>
      rw [hx, hk, hnone, Option.bind_some, Option.bind_some, Option.bind_some, ho]
      rfl
    · rfl
  | some change =>
    refine ⟨hbase, fun id => ?_, h.distinct_base, h.distinct_overrides.put name change, hsame⟩
    dsimp only
    rw [get?_concat hnone, Entries.get?_put, h.get?_overrides]
    split
    · next hx => rw [hx, hk, Option.bind_some, Option.bind_some, ho]
    · rfl

theorem reduces_foldl (hb : base.Distinct) (hc : columns.Distinct)
    (hreal : ∀ id, isReal id = true → base.has id = true) :
    Reduces base columns (columns.foldl (fun r e => r.add isReal e.1 e.2) ⟨base, []⟩) := by
  induction columns using List.reverseRecOn with
  | nil =>
    refine ⟨fun id => Option.or_none.symm, fun id => ?_, hb, List.nodup_nil, fun _ => rfl⟩
    cases base.get? id <;> rfl
  | append_singleton init last ih =>
    obtain ⟨name, config⟩ := last
    obtain ⟨hinit, hnew⟩ := Entries.distinct_concat hc
    have hnone : Entries.get? init name = none := Entries.get?_eq_none_iff.2 hnew
    have h := ih hinit
    rw [List.foldl_append, List.foldl_cons, List.foldl_nil]
    generalize init.foldl (fun r e => r.add isReal e.1 e.2) (⟨base, []⟩ : Reduction) = r at h ⊢
    have hbase : r.base.get? name = base.get? name := by
      rw [h.get?_base, hnone, Option.or_none]
    cases hk : base.get? name with
    | none =>
      have hdummy : isReal name = false := by
        by_contra hr
        have hhas := hreal name (by simpa using hr)
        rw [Entries.has, hk] at hhas
        cases hhas
      rw [Reduction.add_unknown (hbase.trans hk) hdummy]
      exact h.add_dummy hnone hk config
    | some known =>
      rw [Reduction.add_known isReal (hbase.trans hk)]
      exact h.add_known hnone hk config

theorem reduces (hb : base.Distinct) (hc : columns.Distinct)
    (hreal : ∀ id, isReal id = true → base.has id = true) :
    Reduces base columns (reduce isReal base columns) := by
  rw [reduce]
  split
  · next h => exact reduces_of_equal hb hc h
  · exact reduces_foldl hb hc hreal

theorem Reduces.proper (h : Reduces base columns r) (hb : Proper (.ofFields base))
    (hc : Proper (.ofFields columns)) :
    Proper (.ofFields r.base) ∧ Proper (.ofFields r.overrides) := by
  constructor
  · apply proper_ofFields_iff.2
    refine ⟨h.distinct_base, fun id config hid => ?_⟩
    rw [h.get?_base] at hid
    rcases Option.or_eq_some_iff.1 hid with hid | ⟨_, hid⟩
    · exact (proper_ofFields_iff.1 hb).2 id config hid
    · exact (proper_ofFields_iff.1 hc).2 id config hid
  · apply proper_ofFields_iff.2
    refine ⟨h.distinct_overrides, fun id change hid => ?_⟩
    rw [h.get?_overrides] at hid
    obtain ⟨known, _, hid⟩ := Option.bind_eq_some_iff.1 hid
    obtain ⟨config, hconfig, ho⟩ := Option.bind_eq_some_iff.1 hid
    exact proper_override? ((proper_ofFields_iff.1 hc).2 id config hconfig) ho

end Column

end FormLayout
