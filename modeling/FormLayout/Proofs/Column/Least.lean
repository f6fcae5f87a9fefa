import FormLayout.Proofs.Column.Merge
/-!
The difference of two configurations is the least overlay: it has the effect of the derived
configuration, up to loose equality, and every other overlay with this effect has its keys.
-/

namespace FormLayout
set_option autoImplicit true
open Value

namespace Column

/-- Keys that lead into an overlay. They go below a key only where the base has an object too. -/
def leads (base overlay : Fields) : List String → Bool
  | [] => true
  | key :: rest =>
    match base.get? key, overlay.get? key with
    | some (.object inner), some (.object written) => leads inner written rest
    | _, some _ => rest.isEmpty
    | _, none => false

/-- Keys that lead into nested objects. -/
def contains (fields : Fields) : List String → Bool
  | [] => true
  | key :: rest =>
    match fields.get? key with
    | some (.object inner) => contains inner rest
    | some _ => rest.isEmpty
    | none => false

theorem looseEq_merge_diff_of {base derived : Fields} (hb : Proper (.object base))
    (hd : derived.Distinct) (h : ∀ e ∈ derived, Option.Rel (fun x y => looseEq x y = true)
      (((change? (Entries.get? base e.1) e.2).map (cover (Entries.get? base e.1))).or
        (Entries.get? base e.1)) (some (cover (Entries.get? base e.1) e.2))) :
    looseEq (.object (merge base (diff base derived))) (.object (merge base derived)) = true := by
  have hdiff := distinct_diff base hd
  apply (looseEq_object_iff (distinct_merge hb.distinct _) (distinct_merge hb.distinct _)).2
  intro name
  rw [get?_merge base hdiff, get?_merge base hd, get?_diff base hd]
  cases hv : derived.get? name with
  | none =>
    dsimp only [Option.bind_none]
    cases hx : base.get? name with
    | none => exact .none
    | some x => exact .some (looseEq_refl (hb.get? hx))
  | some v =>
    have hrel := h _ (Entries.mem_of_get? hv)
    dsimp only [Option.bind_some] at hrel ⊢
    cases hc : change? (base.get? name) v with
    | none =>
      rw [hc] at hrel
      exact hrel
    | some c =>
      rw [hc] at hrel
      exact hrel

/-- Writing a change over a value has, up to loose equality, the effect of laying the derived value
over it. -/
theorem cover_change? (h : Proper v) : ∀ existing, (∀ x, existing = some x → x.Proper) →
    Option.Rel (fun x y => looseEq x y = true)
      (((change? existing v).map (cover existing)).or existing) (some (cover existing v)) := by
  have hv := h
  have hself {existing : Option Value} {v : Value} (hv : v.Proper) (ha : Apart existing v) :
      Option.Rel (fun x y => looseEq x y = true)
        (((change? existing v).map (cover existing)).or existing) (some (cover existing v)) := by
    rw [cover_of_apart ha]
    cases hc : change? existing v with
    | some c =>
      rw [eq_of_change?_of_apart ha hc, Option.map_some, cover_of_apart ha]
      exact .some (looseEq_refl hv)
    | none =>
      rw [change?_of_apart ha] at hc
      cases existing with
      | none => cases hc
      | some e =>
        dsimp only at hc
        split at hc
        · next he => exact .some he
        · cases hc
  induction h with
  | @object derived hd he ih =>
    intro existing hx
    rcases apart_or existing (.object derived) with ha | ⟨base, m, rfl, hm⟩
    · exact hself hv ha
    · cases hm
      have hb := hx _ rfl
      have hsame := looseEq_merge_diff_of hb hd fun e hm =>
        ih e hm (he e hm) (Entries.get? base e.1) fun x hx => hb.get? hx
      rw [change?_objects, cover]
      split
      · next hnil =>
        rw [hnil, merge] at hsame
        exact .some hsame
      · rw [Option.map_some, cover]
        exact .some hsame
  | _ => exact fun existing _ => hself hv fun _ _ _ h => by cases h

/-- The difference to a base has, up to loose equality, the effect of the derived configuration. -/
theorem looseEq_merge_diff {base derived : Fields} (hb : Proper (.object base))
    (hd : Proper (.object derived)) :
    looseEq (.object (merge base (diff base derived))) (.object (merge base derived)) = true :=
  looseEq_merge_diff_of hb hd.distinct fun e he =>
    cover_change? ((proper_object_iff.1 hd).2 e he) _ fun _ hx => hb.get? hx

/-- A value that has no effect is no change. -/
theorem change?_eq_none (h : Proper v) : ∀ x, Proper x → looseEq x (cover (some x) v) = true →
    change? (some x) v = none := by
  have hself {x v : Value} (ha : Apart (some x) v) (he : looseEq x (cover (some x) v) = true) :
      change? (some x) v = none := by
    rw [cover_of_apart ha] at he
    rw [change?_of_apart ha]
    exact if_pos he
  induction h with
  | @object derived hd _ ih =>
    intro x hx he
    rcases apart_or (some x) (.object derived) with ha | ⟨base, m, hbase, hm⟩
    · exact hself ha he
    · cases hbase
      cases hm
      rw [cover, looseEq_object_iff hx.distinct (distinct_merge hx.distinct _)] at he
      rw [change?_objects, if_pos]
      refine diff_eq_nil fun e hm => ?_
      have hrel := he e.1
      rw [get?_merge base hd, Entries.get?_of_mem hd hm] at hrel
      obtain ⟨y, hy, hrel⟩ := exists_of_rel_some hrel
      rw [hy] at hrel ⊢
      exact ih e hm y (hx.get? hy) hrel
  | _ => exact fun x _ he => hself (fun _ _ _ h => by cases h) he

/-- A change by keys of an object is the difference to this object. -/
theorem eq_diff_of_change? {base change : Fields}
    (h : change? (some (.object base)) v = some (.object change)) :
    ∃ derived, v = .object derived ∧ change = diff base derived := by
  rcases apart_or (some (.object base)) v with ha | ⟨b, derived, hb, rfl⟩
  · rw [← eq_of_change?_of_apart ha h] at ha
    exact absurd rfl (ha base change rfl)
  · cases hb
    rw [change?_objects] at h
    split at h
    · cases h
    · exact ⟨derived, rfl, (Value.object.inj (Option.some.inj h)).symm⟩

/-- An overlay with the effect of the derived configuration has each key of the difference. -/
theorem exists_of_change? {base derived other : Fields} {key : String} {change : Value}
    (hb : Proper (.object base)) (hd : Proper (.object derived)) (ho : Proper (.object other))
    (he : looseEq (.object (merge base other)) (.object (merge base derived)) = true)
    (hc : (diff base derived).get? key = some change) : ∃ v w, derived.get? key = some v ∧
      change? (base.get? key) v = some change ∧ other.get? key = some w ∧
      looseEq (cover (base.get? key) w) (cover (base.get? key) v) = true := by
  have hrel := (looseEq_object_iff (distinct_merge hb.distinct _)
    (distinct_merge hb.distinct _)).1 he key
  rw [get?_merge base ho.distinct, get?_merge base hd.distinct] at hrel
  rw [get?_diff base hd.distinct] at hc
  obtain ⟨v, hv, hc⟩ := Option.bind_eq_some_iff.1 hc
  rw [hv] at hrel
  cases hw : other.get? key with
  | some w =>
    rw [hw] at hrel
    obtain ⟨x, hx, hrel⟩ := exists_of_rel_some hrel
    cases hx
    exact ⟨v, w, hv, hc, rfl, hrel⟩
  | none =>
    rw [hw] at hrel
    obtain ⟨x, hx, hrel⟩ := exists_of_rel_some hrel
    dsimp only at hx
    rw [hx] at hrel hc
    rw [change?_eq_none (hd.get? hv) x (hb.get? hx) hrel] at hc
    cases hc

theorem contains_of_leads {path : List String} : ∀ {base derived other : Fields},
    Proper (.object base) → Proper (.object derived) → Proper (.object other) →
    looseEq (.object (merge base other)) (.object (merge base derived)) = true →
    leads base (diff base derived) path = true → contains other path = true := by
  induction path with
  | nil => exact fun _ _ _ _ _ => rfl
  | cons key rest ih =>
    intro base derived other hb hd ho he hlead
    cases hc : (diff base derived).get? key with
    | none =>
      rw [leads, hc] at hlead
      cases hx : base.get? key with
      | none =>
        rw [hx] at hlead
        cases hlead
      | some x =>
        rw [hx] at hlead
        cases x <;> cases hlead
    | some change =>
      obtain ⟨v, w, hv, hchange, hw, heq⟩ := exists_of_change? hb hd ho he hc
      rw [contains, hw]
      rw [leads, hc] at hlead
      split at hlead
      · next inner written hx hwritten =>
        -- The base and the difference go on with objects, and so does the other overlay.
        cases hwritten
        rw [hx] at hchange heq
        obtain ⟨own, rfl, rfl⟩ := eq_diff_of_change? hchange
        rw [cover] at heq
        obtain ⟨m, hm⟩ := looseEq_object_right heq
        have hobject : ∃ below, w = .object below := by
          cases w with
          | object below => exact ⟨below, rfl⟩
          | _ => cases hm
        obtain ⟨below, rfl⟩ := hobject
        rw [cover] at heq
        exact ih (hb.get? hx) (hd.get? hv) (ho.get? hw) heq hlead
      · rw [List.isEmpty_iff.1 hlead]
        cases w <;> rfl
      · next hnone => cases hnone

/-- The difference to a base has, up to loose equality, the effect of the derived configuration, and
its keys are in every overlay that has this effect. -/
theorem diff_least {base derived : Fields} (hb : Proper (.object base))
    (hd : Proper (.object derived)) :
    looseEq (.object (merge base (diff base derived))) (.object (merge base derived)) = true ∧
    ∀ other, Proper (.object other) →
      looseEq (.object (merge base other)) (.object (merge base derived)) = true →
      ∀ path, leads base (diff base derived) path = true → contains other path = true :=
  ⟨looseEq_merge_diff hb hd, fun _ ho he _ hpath => contains_of_leads hb hd ho he hpath⟩

/-- A size that was written as a text is no difference. -/
theorem diff_least_of_numeric_text :
    let base : Fields := [("label", .string "A"),
      ("config", .object [("size", .string "3"), ("max", .number (.integer 5))])]
    let derived : Fields := [("config", .object [("size", .number (.integer 3)),
      ("max", .number (.integer 8))])]
    Proper (.object base) ∧ Proper (.object derived) ∧
    leads base (diff base derived) ["config", "max"] = true ∧
    leads base (diff base derived) ["config", "size"] = false ∧
    looseEq (.object (merge base (diff base derived))) (.object (merge base derived)) = true ∧
    ∀ other, Proper (.object other) →
      looseEq (.object (merge base other)) (.object (merge base derived)) = true →
      ∀ path, leads base (diff base derived) path = true → contains other path = true := by
  intro base derived
  have hb : Proper (.object base) := by
    simp [base, proper_object_iff, Entries.Distinct, Entries.names, Proper.string, Proper.number]
  have hd : Proper (.object derived) := by
    simp [derived, proper_object_iff, Entries.Distinct, Entries.names, Proper.number]
  exact ⟨hb, hd, by decide +kernel, by decide +kernel, diff_least hb hd⟩

end Column

end FormLayout
