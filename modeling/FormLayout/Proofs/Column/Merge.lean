import FormLayout.Column.Diff
import FormLayout.Column.Merge
import FormLayout.Proofs.Document.Value
/-!
Merging a configuration and reducing it again. What a derived configuration changes is found again
after it was laid over the base.
-/

namespace FormLayout
set_option autoImplicit true
open Value

namespace Column

/-- Not both of them are objects. -/
def Apart (existing : Option Value) (v : Value) : Prop :=
  ∀ base derived, existing = some (.object base) → v ≠ .object derived

theorem apart_or (existing : Option Value) (v : Value) : Apart existing v ∨
    ∃ base derived, existing = some (.object base) ∧ v = .object derived := by
  by_cases h : ∃ base derived, existing = some (.object base) ∧ v = .object derived
  · exact .inr h
  · exact .inl fun base derived hx hv => h ⟨base, derived, hx, hv⟩

theorem cover_of_apart (h : Apart existing v) : cover existing v = v := by
  cases v with
  | object m => exact cover.eq_2 existing m fun base hx => h base m hx rfl
  | _ => exact cover.eq_3 existing _ fun m hv => by cases hv

theorem change?_of_apart (h : Apart existing v) : change? existing v =
    match existing with
    | some e => if looseEq e v then none else some v
    | none => some v := by
  cases existing with
  | none => cases v <;> rw [change?.eq_def]
  | some e =>
    cases v with
    | object m => exact change?.eq_2 m e fun base hx => h base m (congrArg some hx) rfl
    | _ => exact change?.eq_4 _ e fun m hv => by cases hv

theorem eq_of_change?_of_apart (h : Apart existing v) (hc : change? existing v = some c) :
    c = v := by
  rw [change?_of_apart h] at hc
  cases existing with
  | none => exact (Option.some.inj hc).symm
  | some e =>
    dsimp only at hc
    split at hc
    · cases hc
    · exact (Option.some.inj hc).symm

theorem get?_merge (base : Fields) {overlay : Fields} (h : overlay.Distinct) (name : String) :
    (merge base overlay).get? name = match overlay.get? name with
      | some v => some (cover (base.get? name) v)
      | none => base.get? name := by
  induction overlay generalizing base with
  | nil => rfl
  | cons e rest ih =>
    obtain ⟨k, v⟩ := e
    have hd : k ∉ Entries.names rest ∧ Entries.Distinct rest := List.nodup_cons.1 h
    rw [merge, ih _ hd.2, Entries.get?]
    by_cases hk : k = name
    · have hnone : Entries.get? rest name = none := Entries.get?_eq_none_iff.2 (hk ▸ hd.1)
      rw [if_pos hk, hnone, hk, Entries.get?_put_self]
    · rw [if_neg hk, Entries.get?_put_of_ne _ _ (Ne.symm hk)]

theorem distinct_merge {base : Fields} (h : base.Distinct) (overlay : Fields) :
    (merge base overlay).Distinct := by
  induction overlay generalizing base with
  | nil => exact h
  | cons e rest ih =>
    rw [merge]
    exact ih (h.put e.1 _)

theorem names_merge (base : Fields) {overlay : Fields} (h : overlay.Distinct) :
    (merge base overlay).names = base.names ++ overlay.names.filter (· ∉ base.names) := by
  induction overlay generalizing base with
  | nil => exact (List.append_nil _).symm
  | cons e rest ih =>
    obtain ⟨k, v⟩ := e
    have hd : k ∉ Entries.names rest ∧ Entries.Distinct rest := List.nodup_cons.1 h
    have hcons : Entries.names ((k, v) :: rest) = k :: Entries.names rest := rfl
    rw [merge, ih _ hd.2, hcons]
    by_cases hk : k ∈ base.names
    · rw [Entries.names_put_of_mem hk, List.filter_cons_of_neg (by simpa using hk)]
    · rw [Entries.names_put_of_not_mem hk, List.filter_cons_of_pos (by simpa using hk),
        List.append_assoc, List.singleton_append]
      congr 2
      refine List.filter_congr fun x hx => ?_
      have hne : x ≠ k := fun he => hd.1 (he ▸ hx)
      simp [hne]

theorem proper_merge_of {base overlay : Fields} (hb : Proper (.object base))
    (h : ∀ e ∈ overlay, ∀ existing, (∀ x, existing = some x → x.Proper) →
      (cover existing e.2).Proper) : Proper (.object (merge base overlay)) := by
  induction overlay generalizing base with
  | nil => exact hb
  | cons e rest ih =>
    rw [List.forall_mem_cons] at h
    rw [merge]
    exact ih (hb.put e.1 (h.1 _ fun x hx => hb.get? hx)) h.2

theorem proper_cover (h : Proper v) : ∀ existing, (∀ x, existing = some x → x.Proper) →
    (cover existing v).Proper := by
  have hv := h
  induction h with
  | @object overlay hd he ih =>
    intro existing hx
    rcases apart_or existing (.object overlay) with ha | ⟨base, m, rfl, hm⟩
    · rw [cover_of_apart ha]
      exact hv
    · cases hm
      rw [cover]
      exact proper_merge_of (hx _ rfl) fun e hm => ih e hm (he e hm)
  | _ =>
    intro existing _
    rw [cover_of_apart fun _ _ _ h => by cases h]
    exact hv

theorem proper_merge {base overlay : Fields} (hb : Proper (.object base))
    (ho : Proper (.object overlay)) : Proper (.object (merge base overlay)) :=
  proper_merge_of hb fun e he => proper_cover ((proper_object_iff.1 ho).2 e he)

theorem merge_empty {fields : Fields} (h : fields.Distinct) : merge [] fields = fields := by
  have hnil : Entries.Distinct ([] : Fields) := List.nodup_nil
  apply Entries.eq_of_get?_eq (distinct_merge hnil fields)
  · rw [names_merge [] h]
    simp [Entries.names]
  · intro name
    rw [get?_merge [] h]
    cases fields.get? name with
    | none => rfl
    | some v => exact congrArg some (cover_of_apart fun _ _ h => by cases h)

theorem merge_self_of {base : Fields} (hb : base.Distinct)
    (h : ∀ e ∈ base, cover (some e.2) e.2 = e.2) : merge base base = base := by
  apply Entries.eq_of_get?_eq (distinct_merge hb base)
  · rw [names_merge base hb, List.filter_eq_nil_iff.2 (by simp), List.append_nil]
  · intro name
    rw [get?_merge base hb]
    cases hx : base.get? name with
    | none => rfl
    | some x => exact congrArg some (h _ (Entries.mem_of_get? hx))

theorem cover_self (h : Proper v) : cover (some v) v = v := by
  induction h with
  | object hd _ ih =>
    rw [cover]
    exact congrArg Value.object (merge_self_of hd ih)
  | _ => rw [cover_of_apart fun _ _ _ h => by cases h]

theorem merge_self {base : Fields} (h : Proper (.object base)) : merge base base = base :=
  merge_self_of h.distinct fun _ he => cover_self ((proper_object_iff.1 h).2 _ he)

theorem merge_merge_of {base overlay : Fields} (hb : Proper (.object base))
    (ho : overlay.Distinct) (h : ∀ e ∈ overlay,
      cover (Entries.get? base e.1) (cover (Entries.get? base e.1) e.2) =
        cover (Entries.get? base e.1) e.2) :
    merge base (merge base overlay) = merge base overlay := by
  have hm := distinct_merge hb.distinct overlay
  apply Entries.eq_of_get?_eq (distinct_merge hb.distinct _)
  · rw [names_merge base hm, names_merge base ho, List.filter_append, List.filter_filter,
      List.filter_eq_nil_iff.2 (by simp), List.nil_append]
    simp
  · intro name
    rw [get?_merge base hm, get?_merge base ho]
    cases hv : overlay.get? name with
    | some v => exact congrArg some (h _ (Entries.mem_of_get? hv))
    | none =>
      dsimp only
      cases hx : base.get? name with
      | none => rfl
      | some x => exact congrArg some (cover_self (hb.get? hx))

theorem cover_cover (h : Proper v) : ∀ existing, (∀ x, existing = some x → x.Proper) →
    cover existing (cover existing v) = cover existing v := by
  have hself {existing : Option Value} {v : Value} (ha : Apart existing v) :
      cover existing (cover existing v) = cover existing v := by
    rw [cover_of_apart ha, cover_of_apart ha]
  induction h with
  | @object overlay hd _ ih =>
    intro existing hx
    rcases apart_or existing (.object overlay) with ha | ⟨base, m, rfl, hm⟩
    · exact hself ha
    · cases hm
      have hb := hx _ rfl
      rw [cover, cover]
      refine congrArg Value.object (merge_merge_of hb hd fun e he => ?_)
      exact ih e he _ fun x hx => hb.get? hx
  | _ => exact fun existing _ => hself fun _ _ _ h => by cases h

/-- Laying a configuration over its base once more changes nothing. -/
theorem merge_merge {base overlay : Fields} (hb : Proper (.object base))
    (ho : Proper (.object overlay)) : merge base (merge base overlay) = merge base overlay :=
  merge_merge_of hb ho.distinct fun e he =>
    cover_cover ((proper_object_iff.1 ho).2 e he) _ fun _ hx => hb.get? hx

theorem diff_empty (derived : Fields) : diff [] derived = derived := by
  induction derived with
  | nil => rfl
  | cons e rest ih =>
    obtain ⟨k, v⟩ := e
    have hc : change? none v = some v := change?_of_apart fun _ _ h => by cases h
    rw [diff, Entries.get?, hc, ih]

theorem names_diff_sublist (base derived : Fields) :
    (diff base derived).names.Sublist derived.names := by
  induction derived with
  | nil => exact .slnil
  | cons e rest ih =>
    obtain ⟨k, v⟩ := e
    rw [diff]
    split
    · exact ih.cons_cons k
    · exact ih.cons k

theorem distinct_diff (base : Fields) {derived : Fields} (h : derived.Distinct) :
    (diff base derived).Distinct :=
  (names_diff_sublist base derived).nodup h

theorem get?_diff (base : Fields) {derived : Fields} (h : derived.Distinct) (name : String) :
    (diff base derived).get? name = (derived.get? name).bind (change? (base.get? name)) := by
  induction derived with
  | nil => rfl
  | cons e rest ih =>
    obtain ⟨k, v⟩ := e
    have hd : k ∉ Entries.names rest ∧ Entries.Distinct rest := List.nodup_cons.1 h
    rw [diff, Entries.get?]
    by_cases hk : k = name
    · have hnone : Entries.get? rest name = none := Entries.get?_eq_none_iff.2 (hk ▸ hd.1)
      rw [if_pos hk, ← hk, Option.bind_some]
      split
      · next c hc => rw [hc, Entries.get?, if_pos rfl]
      · next hc => rw [hc, hk, ih hd.2, hnone, Option.bind_none]
    · rw [if_neg hk, ← ih hd.2]
      split
      · rw [Entries.get?, if_neg hk]
      · rfl

theorem proper_diff_of (base : Fields) {derived : Fields} (hd : derived.Distinct)
    (h : ∀ e ∈ derived, ∀ existing c, change? existing e.2 = some c → c.Proper) :
    Proper (.object (diff base derived)) := by
  refine .object (distinct_diff base hd) fun e he => ?_
  have hget := Entries.get?_of_mem (distinct_diff base hd) he
  rw [get?_diff base hd] at hget
  obtain ⟨v, hv, hc⟩ := Option.bind_eq_some_iff.1 hget
  exact h _ (Entries.mem_of_get? hv) _ _ hc

theorem change?_objects {base derived : Fields} :
    change? (some (.object base)) (.object derived) =
      if diff base derived = [] then none else some (.object (diff base derived)) := by
  rw [change?]
  cases diff base derived <;> rfl

theorem proper_change? (h : Proper v) : ∀ existing c, change? existing v = some c → c.Proper := by
  have hv := h
  induction h with
  | @object derived hd he ih =>
    intro existing c hc
    rcases apart_or existing (.object derived) with ha | ⟨base, m, rfl, hm⟩
    · rw [eq_of_change?_of_apart ha hc]
      exact hv
    · cases hm
      rw [change?_objects] at hc
      split at hc
      · cases hc
      · rw [← Option.some.inj hc]
        exact proper_diff_of base hd fun e hm => ih e hm (he e hm)
  | _ =>
    intro existing c hc
    rw [eq_of_change?_of_apart (fun _ _ _ h => by cases h) hc]
    exact hv

theorem proper_diff (base : Fields) {derived : Fields} (h : Proper (.object derived)) :
    Proper (.object (diff base derived)) :=
  proper_diff_of base h.distinct fun e he => proper_change? ((proper_object_iff.1 h).2 e he)

theorem looseEqItems_iff {m n : List Value} :
    looseEqItems m n = true ↔ List.Forall₂ (fun x y => looseEq x y = true) m n := by
  induction m generalizing n with
  | nil => cases n <;> simp [looseEqItems]
  | cons x m ih => cases n <;> simp [looseEqItems, ih]

theorem looseEqFields_iff {m n : Fields} : looseEqFields m n = true ↔
    ∀ e ∈ m, ∃ v, n.get? e.1 = some v ∧ looseEq e.2 v = true := by
  induction m with
  | nil => simp [looseEqFields]
  | cons e m ih =>
    obtain ⟨k, x⟩ := e
    rw [looseEqFields, Bool.and_eq_true, ih, List.forall_mem_cons]
    cases n.get? k <;> simp

theorem looseEq_of_equal (hx : Proper x) : ∀ y, x.equal y = true → looseEq x y = true := by
  induction hx with
  | null =>
    intro y h
    cases y with
    | null => rfl
    | _ => cases h
  | bool b =>
    intro y h
    cases y with
    | bool c => exact h
    | _ => cases h
  | number n =>
    intro y h
    cases y with
    | number m =>
      rw [equal] at h
      rw [looseEq, h, Bool.true_or]
    | _ => cases h
  | string s =>
    intro y h
    cases y with
    | string t =>
      rw [equal] at h
      rw [looseEq, h, Bool.true_or]
    | _ => cases h
  | array _ ih =>
    intro y h
    cases y with
    | array n =>
      rw [equal, equalItems_iff] at h
      rw [looseEq, looseEqItems_iff]
      exact ((List.forall₂_and_left _ _).2 ⟨ih, h⟩).imp fun x y hxy => hxy.1 y hxy.2
    | _ => cases h
  | object _ _ ih =>
    intro y h
    cases y with
    | object n =>
      rw [equal, Bool.and_eq_true, equalFields_iff] at h
      rw [looseEq, Bool.and_eq_true, looseEqFields_iff]
      refine ⟨h.1, fun e he => ?_⟩
      obtain ⟨v, hv, heq⟩ := h.2 e he
      exact ⟨v, hv, ih e he v heq⟩
    | _ => cases h

theorem looseEq_refl (h : Proper v) : looseEq v v = true := looseEq_of_equal h v (equal_refl h)

/-- In loosely equal objects each name has loosely equal values. -/
theorem looseEq_object_iff {m n : Fields} (hm : m.Distinct) (hn : n.Distinct) :
    looseEq (.object m) (.object n) = true ↔
      ∀ name, Option.Rel (fun x y => looseEq x y = true) (m.get? name) (n.get? name) := by
  rw [looseEq, Bool.and_eq_true, beq_iff_eq, looseEqFields_iff]
  exact Entries.forall_rel_iff (R := fun x y => looseEq x y = true) hm hn

theorem diff_eq_nil {base derived : Fields}
    (h : ∀ e ∈ derived, change? (Entries.get? base e.1) e.2 = none) : diff base derived = [] := by
  induction derived with
  | nil => rfl
  | cons e rest ih =>
    rw [List.forall_mem_cons] at h
    rw [diff, h.1]
    exact ih h.2

theorem looseEq_object_right (h : looseEq x (.object n) = true) : ∃ m, x = .object m := by
  cases x with
  | object m => exact ⟨m, rfl⟩
  | _ => cases h

/-- Loosely equal values need no change. -/
theorem change?_of_looseEq (hy : Proper y) : ∀ x, Proper x → looseEq x y = true →
    change? (some x) y = none := by
  induction hy with
  | @object derived hd he ih =>
    intro x hx h
    obtain ⟨base, rfl⟩ := looseEq_object_right h
    rw [change?_objects, if_pos]
    apply diff_eq_nil
    intro e hm
    have hrel := (looseEq_object_iff hx.distinct hd).1 h e.1
    rw [Entries.get?_of_mem hd hm] at hrel
    obtain ⟨w, hb, hloose⟩ := exists_of_rel_some hrel
    rw [hb]
    exact ih e hm w (hx.get? hb) hloose
  | _ =>
    intro x _ h
    rw [change?_of_apart fun _ _ _ h => by cases h]
    exact if_pos h

theorem diff_of_looseEq {base derived : Fields} (hb : Proper (.object base))
    (hd : Proper (.object derived)) (h : looseEq (.object base) (.object derived) = true) :
    diff base derived = [] := by
  have hc := change?_of_looseEq hd _ hb h
  rw [change?_objects] at hc
  by_contra hne
  rw [if_neg hne] at hc
  cases hc

/-- Equal values need no change. -/
theorem change?_of_equal (hy : Proper y) (x : Value) (hx : Proper x) (h : x.equal y = true) :
    change? (some x) y = none :=
  change?_of_looseEq hy x hx (looseEq_of_equal hx y h)

theorem diff_of_equal {base derived : Fields} (hb : Proper (.object base))
    (hd : Proper (.object derived)) (h : equal (.object base) (.object derived) = true) :
    diff base derived = [] :=
  diff_of_looseEq hb hd (looseEq_of_equal hb _ h)

theorem diff_merge_diff_of {base derived : Fields} (hb : Proper (.object base))
    (hd : derived.Distinct) (h : ∀ e ∈ derived, ∀ c, change? (Entries.get? base e.1) e.2 = some c →
      ∃ c', change? (base.get? e.1) (cover (base.get? e.1) c) = some c' ∧ c'.equal c = true) :
    equal (.object (diff base (merge base (diff base derived)))) (.object (diff base derived)) =
      true := by
  have hdiff := distinct_diff base hd
  have hmerge := distinct_merge hb.distinct (diff base derived)
  apply (equal_object_iff (distinct_diff base hmerge) hdiff).2
  intro name
  rw [get?_diff base hmerge, get?_merge base hdiff]
  cases hc : (diff base derived).get? name with
  | none =>
    cases hx : base.get? name with
    | none => exact .none
    | some x =>
      dsimp only [Option.bind_some]
      rw [change?_of_equal (hb.get? hx) x (hb.get? hx) (equal_refl (hb.get? hx))]
      exact .none
  | some c =>
    rw [get?_diff base hd] at hc
    obtain ⟨v, hv, hc⟩ := Option.bind_eq_some_iff.1 hc
    obtain ⟨c', hc', heq⟩ := h _ (Entries.mem_of_get? hv) c hc
    dsimp only [Option.bind_some]
    rw [hc']
    exact .some heq

/-- A change is found again after it was made. -/
theorem change?_cover (h : Proper v) : ∀ existing, (∀ x, existing = some x → x.Proper) →
    ∀ c, change? existing v = some c →
      ∃ c', change? existing (cover existing c) = some c' ∧ c'.equal c = true := by
  have hv := h
  have hself {existing : Option Value} {v c : Value} (hv : v.Proper) (ha : Apart existing v)
      (hc : change? existing v = some c) :
      ∃ c', change? existing (cover existing c) = some c' ∧ c'.equal c = true := by
    have he := eq_of_change?_of_apart ha hc
    rw [he] at hc ⊢
    rw [cover_of_apart ha]
    exact ⟨v, hc, equal_refl hv⟩
  induction h with
  | @object derived hd he ih =>
    intro existing hx c hc
    rcases apart_or existing (.object derived) with ha | ⟨base, m, rfl, hm⟩
    · exact hself hv ha hc
    · cases hm
      have hb := hx _ rfl
      have hsame := diff_merge_diff_of hb hd fun e hm c hc =>
        ih e hm (he e hm) (Entries.get? base e.1) (fun x hx => hb.get? hx) c hc
      rw [change?_objects] at hc
      split at hc
      · cases hc
      · next hne =>
        rw [← Option.some.inj hc, cover, change?_objects, if_neg]
        · exact ⟨_, rfl, hsame⟩
        · exact fun hnil => hne ((eq_nil_iff_of_equal hsame).1 hnil)
  | _ => exact fun existing _ c hc => hself hv (fun _ _ _ h => by cases h) hc

/-- The difference to a base is found again after it was laid over the base. -/
theorem diff_merge_diff {base derived : Fields} (hb : Proper (.object base))
    (hd : Proper (.object derived)) : equal (.object (diff base (merge base (diff base derived))))
      (.object (diff base derived)) = true :=
  diff_merge_diff_of hb hd.distinct fun e he c hc =>
    change?_cover ((proper_object_iff.1 hd).2 e he) _ (fun _ hx => hb.get? hx) c hc

end Column

end FormLayout
