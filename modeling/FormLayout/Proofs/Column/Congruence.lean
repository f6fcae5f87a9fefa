import FormLayout.Proofs.Column.Reduction
/-!
Differences do not tell equal bases apart, and laying a configuration over the base first makes no
difference either.
-/

namespace FormLayout
set_option autoImplicit true
open Value

theorem Binary64.equal_congr {x y : Binary64} (h : x.equal y = true) (z : Binary64) :
    x.equal z = y.equal z := by
  rw [Bool.eq_iff_iff]
  constructor
  · exact equal_trans (equal_comm x y ▸ h)
  · exact equal_trans h

theorem Number.equal_congr {m n : Number} (h : m.equal n = true) (k : Number) :
    m.equal k = n.equal k := by
  cases m with
  | integer m =>
    cases n with
    | integer n => rw [eq_of_beq h]
    | float y => cases h
  | float x =>
    cases n with
    | integer n => cases h
    | float y =>
      cases k with
      | integer k => rfl
      | float z => exact Binary64.equal_congr h z

namespace Column

theorem sameNumber_congr {m n : Number} (h : m.equal n = true) (z : Option Binary64) :
    sameNumber m.toBinary64? z = sameNumber n.toBinary64? z := by
  cases m with
  | integer m =>
    cases n with
    | integer n => rw [eq_of_beq h]
    | float y => cases h
  | float x =>
    cases n with
    | integer n => cases h
    | float y =>
      cases z with
      | none => rfl
      | some z => exact Binary64.equal_congr h z

theorem looseEqItems_congr {xs ys : List Value} (h : List.Forall₂ (fun x y => equal x y = true) xs ys)
    {vs : List Value}
    (he : ∀ x ∈ xs, ∀ y ∈ ys, equal x y = true → ∀ v ∈ vs, looseEq x v = looseEq y v) :
    looseEqItems xs vs = looseEqItems ys vs := by
  induction h generalizing vs with
  | nil => rfl
  | cons hxy _ ih =>
    cases vs with
    | nil => rfl
    | cons v vs =>
      rw [looseEqItems, looseEqItems,
        he _ List.mem_cons_self _ List.mem_cons_self hxy v List.mem_cons_self]
      congr 1
      apply ih
      intro x hx y hy hxy w hw
      exact he x (List.mem_cons_of_mem _ hx) y (List.mem_cons_of_mem _ hy) hxy w
        (List.mem_cons_of_mem v hw)

/-- Equal values are loosely equal to the same values. -/
theorem looseEq_congr (hx : Proper x) : ∀ y, Proper y → equal x y = true → ∀ v, Proper v →
    looseEq x v = looseEq y v := by
  induction hx with
  | null =>
    intro y _ h v _
    cases y with
    | null => rfl
    | _ => cases h
  | bool b =>
    intro y _ h v _
    cases y with
    | bool c => rw [eq_of_beq h]
    | _ => cases h
  | number m =>
    intro y _ h v _
    cases y with
    | number n =>
      cases v with
      | number k =>
        rw [looseEq, looseEq, Number.equal_congr h, sameNumber_congr h]
      | string s => exact sameNumber_congr h _
      | _ => rfl
    | _ => cases h
  | string s =>
    intro y _ h v _
    cases y with
    | string t => rw [eq_of_beq h]
    | _ => cases h
  | array _ ih =>
    intro y hy h v hv
    cases y with
    | array ys =>
      cases v with
      | array vs =>
        cases hy with
        | array hys =>
          cases hv with
          | array hvs =>
            rw [equal, equalItems_iff] at h
            rw [looseEq, looseEq]
            apply looseEqItems_congr h
            intro x hx y hy hxy v hv
            exact ih x hx y (hys y hy) hxy v (hvs v hv)
      | _ => rfl
    | _ => cases h
  | @object m hm _ ih =>
    intro y hy h v hv
    cases y with
    | object n =>
      cases v with
      | object k =>
        rw [Bool.eq_iff_iff, looseEq_object_iff hm hv.distinct,
          looseEq_object_iff hy.distinct hv.distinct]
        apply forall_congr'
        intro name
        have hrel := (equal_object_iff hm hy.distinct).1 h name
        cases hw : Entries.get? k name with
        | none =>
          cases hx : Entries.get? m name with
          | none =>
            rw [hx] at hrel
            rw [eq_none_of_rel hrel]
          | some x =>
            obtain ⟨y, hget, _⟩ := exists_of_rel (hx ▸ hrel)
            rw [hget]
            exact iff_of_false (fun h => by cases h) fun h => by cases h
        | some w =>
          cases hx : Entries.get? m name with
          | none =>
            rw [hx] at hrel
            rw [eq_none_of_rel hrel]
          | some x =>
            obtain ⟨y, hget, hxy⟩ := exists_of_rel (hx ▸ hrel)
            rw [hget, Option.rel_some_some, Option.rel_some_some,
              ih _ (Entries.mem_of_get? hx) y (hy.get? hget) hxy w (hv.get? hw)]
      | _ => rfl
    | _ => cases h

theorem diff_congr {base base' derived : Fields} (h : ∀ e ∈ derived,
      change? (Entries.get? base e.1) e.2 = change? (Entries.get? base' e.1) e.2) :
    diff base derived = diff base' derived := by
  induction derived with
  | nil => rfl
  | cons e rest ih =>
    rw [List.forall_mem_cons] at h
    rw [diff, diff, h.1, ih h.2]

/-- Equal values need the same change. -/
theorem change?_congr (hv : Proper v) : ∀ x y, Proper x → Proper y → equal x y = true →
    change? (some x) v = change? (some y) v := by
  have hself {x y v : Value} (hx : Proper x) (hy : Proper y) (hv : Proper v)
      (h : equal x y = true) (ha : Apart (some x) v) (hb : Apart (some y) v) :
      change? (some x) v = change? (some y) v := by
    rw [change?_of_apart ha, change?_of_apart hb]
    dsimp only
    rw [looseEq_congr hx y hy h v hv]
  have hproper := hv
  induction hv with
  | @object derived hd he ih =>
    intro x y hx hy h
    cases x with
    | object base =>
      cases y with
      | object base' =>
        have hsame : diff base derived = diff base' derived := by
          apply diff_congr
          intro e hm
          have hrel := (equal_object_iff hx.distinct hy.distinct).1 h e.1
          cases hb : Entries.get? base e.1 with
          | none =>
            rw [hb] at hrel
            rw [eq_none_of_rel hrel]
          | some b =>
            obtain ⟨c, hc, hbc⟩ := exists_of_rel (hb ▸ hrel)
            rw [hc]
            exact ih e hm (he e hm) b c (hx.get? hb) (hy.get? hc) hbc
        rw [change?_objects, change?_objects, hsame]
      | _ => cases h
    | _ =>
      cases y with
      | object base' => cases h
      | _ => exact hself hx hy hproper h (fun _ _ h => by cases h) fun _ _ h => by cases h
  | _ =>
    intro x y hx hy h
    exact hself hx hy hproper h (fun _ _ _ h => by cases h) fun _ _ _ h => by cases h

/-- The differences to equal bases are the same. -/
theorem diff_of_equal_bases {base base' derived : Fields} (hb : Proper (.object base))
    (hb' : Proper (.object base')) (hd : Proper (.object derived))
    (h : equal (.object base) (.object base') = true) : diff base derived = diff base' derived := by
  have hc := change?_congr hd _ _ hb hb' h
  rw [change?_objects, change?_objects] at hc
  by_cases hnil : diff base derived = []
  · by_cases hnil' : diff base' derived = []
    · rw [hnil, hnil']
    · rw [if_pos hnil, if_neg hnil'] at hc
      cases hc
  · by_cases hnil' : diff base' derived = []
    · rw [if_neg hnil, if_pos hnil'] at hc
      cases hc
    · rw [if_neg hnil, if_neg hnil'] at hc
      exact Value.object.inj (Option.some.inj hc)

theorem diff_merge_of {base derived : Fields} (hb : Proper (.object base))
    (hd : derived.Distinct) (h : ∀ e ∈ derived, Option.Rel (fun x y => equal x y = true)
      (change? (Entries.get? base e.1) (cover (Entries.get? base e.1) e.2))
      (change? (Entries.get? base e.1) e.2)) :
    equal (.object (diff base (merge base derived))) (.object (diff base derived)) = true := by
  have hm := distinct_merge hb.distinct derived
  apply (equal_object_iff (distinct_diff base hm) (distinct_diff base hd)).2
  intro name
  rw [get?_diff base hm, get?_diff base hd, get?_merge base hd]
  cases hv : derived.get? name with
  | some v => exact h _ (Entries.mem_of_get? hv)
  | none =>
    cases hx : base.get? name with
    | none => exact .none
    | some x =>
      dsimp only [Option.bind_some]
      rw [change?_of_equal (hb.get? hx) x (hb.get? hx) (equal_refl (hb.get? hx))]
      exact .none

theorem change?_cover_self (hv : Proper v) : ∀ existing, (∀ x, existing = some x → x.Proper) →
    Option.Rel (fun x y => equal x y = true) (change? existing (cover existing v))
      (change? existing v) := by
  have hself {existing : Option Value} {v : Value} (hv : v.Proper) (ha : Apart existing v) :
      Option.Rel (fun x y => equal x y = true) (change? existing (cover existing v))
        (change? existing v) := by
    rw [cover_of_apart ha]
    cases hc : change? existing v with
    | none => exact .none
    | some c => exact .some (equal_refl (proper_change? hv _ c hc))
  have hproper := hv
  induction hv with
  | @object derived hd he ih =>
    intro existing hx
    rcases apart_or existing (.object derived) with ha | ⟨base, m, rfl, hm⟩
    · exact hself hproper ha
    · cases hm
      have hb := hx _ rfl
      have hsame := diff_merge_of hb hd fun e hm =>
        ih e hm (he e hm) _ fun x hx => hb.get? hx
      rw [cover, change?_objects, change?_objects]
      by_cases hnil : diff base derived = []
      · rw [if_pos hnil, if_pos ((eq_nil_iff_of_equal hsame).2 hnil)]
        exact .none
      · rw [if_neg hnil, if_neg fun hnil' => hnil ((eq_nil_iff_of_equal hsame).1 hnil')]
        exact .some hsame
  | _ => exact fun existing _ => hself hproper fun _ _ _ h => by cases h

/-- Laying a configuration over the base first does not change the difference to it. -/
theorem diff_merge {base derived : Fields} (hb : Proper (.object base))
    (hd : Proper (.object derived)) :
    equal (.object (diff base (merge base derived))) (.object (diff base derived)) = true :=
  diff_merge_of hb hd.distinct fun _ he =>
    change?_cover_self ((proper_object_iff.1 hd).2 _ he) _ fun _ hx => hb.get? hx

section Override

variable {known config config' : Fields}

theorem override?_eq (hk : Proper (.object known)) (hc : Proper (.object config)) :
    override? known config =
      if diff known config = [] then none else some (diff known config) := by
  rw [override?]
  by_cases hnil : diff known config = []
  · rw [if_pos hnil, if_pos (.inr hnil)]
  · rw [if_neg hnil, if_neg]
    rintro (h | h)
    · exact hnil (diff_of_equal hk hc h)
    · exact hnil h

/-- Configurations with equal differences have equal overrides. -/
theorem rel_override? (hk : Proper (.object known)) (hc : Proper (.object config))
    (hc' : Proper (.object config'))
    (h : equal (.object (diff known config')) (.object (diff known config)) = true) :
    Option.Rel (fun x y => equal (.object x) (.object y) = true) (override? known config')
      (override? known config) := by
  rw [override?_eq hk hc, override?_eq hk hc']
  by_cases hnil : diff known config = []
  · rw [if_pos hnil, if_pos ((eq_nil_iff_of_equal h).2 hnil)]
    exact .none
  · rw [if_neg hnil, if_neg fun hnil' => hnil ((eq_nil_iff_of_equal h).1 hnil')]
    exact .some h

/-- A change of nothing, laid over nothing, is all there is. -/
theorem merge_diff_of_empty {base : Fields} (hc : config.Distinct)
    (h : equal (.object base) (.object []) = true) : merge [] (diff base config) = config := by
  rw [(eq_nil_iff_of_equal h).2 rfl, diff_empty, merge_empty hc]

/-- A configuration of its own is the same change of the base, whether it is laid over it before or
not. -/
theorem rel_override?_merge (hk : Proper (.object known)) (hc : Proper (.object config)) :
    Option.Rel (fun x y => equal (.object x) (.object y) = true)
      (override? known (merge [] config)) (override? known (merge known config)) := by
  have hmerged := proper_merge hk hc
  rw [merge_empty hc.distinct]
  apply rel_override? hk hmerged hc
  exact equal_symm (proper_diff known hmerged) _ (proper_diff known hc) (diff_merge hk hc)

/-- A change that was made over an equal base is the same over this one. -/
theorem rel_override?_rebase {previous : Fields} (hp : Proper (.object previous))
    (hk : Proper (.object known)) (hc : Proper (.object config))
    (he : equal (.object previous) (.object known) = true) :
    Option.Rel (fun x y => equal (.object x) (.object y) = true)
      (override? known (merge known (diff previous config))) (override? known config) := by
  apply rel_override? hk hc (proper_merge hk (proper_diff previous hc))
  rw [diff_of_equal_bases hp hk hc he]
  exact diff_merge_diff hk hc

end Override

end Column

end FormLayout
