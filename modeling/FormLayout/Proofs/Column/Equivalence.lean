import FormLayout.Proofs.Column.Congruence
/-!
Loose equality is an equivalence relation. Values without parts are loosely equal when they have one
standard form, arrays and objects when their parts are.
-/

namespace FormLayout
set_option autoImplicit true
open Value

namespace Binary64

/-- The number with the sign that equality looks at: zero has none. -/
def standard (x : Binary64) : Binary64 := if x.magnitude = 0 then zero false else x

theorem equal_iff_standard {x y : Binary64} : x.equal y = true ↔ x.standard = y.standard := by
  obtain ⟨s, m, hm⟩ := x
  obtain ⟨t, n, hn⟩ := y
  rw [equal, standard, standard]
  by_cases hx : m = 0
  · by_cases hy : n = 0
    · simp [hx, hy]
    · simp [hx, hy, zero, Ne.symm hy]
  · by_cases hy : n = 0
    · simp [hx, hy, zero]
    · simp [hx, hy, and_comm]

end Binary64

namespace Value

/-- The value as a number, if it is one or a text of one. -/
def number? : Value → Option Binary64
  | .number n => n.toBinary64?
  | .string s => Column.numericText? s
  | .null | .bool _ | .array _ | .object _ => none

/-- Numbers and numeric texts in one form, other values as they are. -/
def standard (v : Value) : Value :=
  match v.number? with
  | some a => .number (.float a.standard)
  | none => v

theorem standard_of_some {v : Value} (h : v.number? = some a) :
    v.standard = .number (.float a.standard) := by
  rw [standard, h]

theorem standard_of_none {v : Value} (h : v.number? = none) : v.standard = v := by
  rw [standard, h]

/-- A value without parts. -/
def Flat : Value → Prop
  | .array _ | .object _ => False
  | .null | .bool _ | .number _ | .string _ => True

theorem standard_of_equal (hx : x.Flat) (h : equal x y = true) : x.standard = y.standard := by
  cases x with
  | null =>
    cases y with
    | null => rfl
    | _ => cases h
  | bool b =>
    cases y with
    | bool c => rw [eq_of_beq h]
    | _ => cases h
  | number m =>
    cases y with
    | number n =>
      cases m with
      | integer m =>
        cases n with
        | integer n => rw [eq_of_beq h]
        | float b => cases h
      | float a =>
        cases n with
        | integer n => cases h
        | float b =>
          have hs : a.standard = b.standard := Binary64.equal_iff_standard.1 h
          rw [standard_of_some rfl, standard_of_some rfl, hs]
    | _ => cases h
  | string s =>
    cases y with
    | string t => rw [eq_of_beq h]
    | _ => cases h
  | array xs => exact hx.elim
  | object m => exact hx.elim

theorem Flat.proper {v : Value} (h : v.Flat) : v.Proper := by
  cases v with
  | null => exact .null
  | bool b => exact .bool b
  | number n => exact .number n
  | string s => exact .string s
  | array xs => exact h.elim
  | object m => exact h.elim

/-- What is no number is the standard form of nothing else. -/
theorem eq_of_standard_eq (hx : number? x = none) (h : standard y = x) : y = x := by
  cases hy : y.number? with
  | none => rwa [standard_of_none hy] at h
  | some b =>
    rw [standard_of_some hy] at h
    rw [← h] at hx
    cases hx

end Value

namespace Column

theorem looseEq_eq_of_flat (h : x.Flat) (y : Value) :
    looseEq x y = (equal x y || sameNumber x.number? y.number?) := by
  cases x with
  | array xs => exact h.elim
  | object m => exact h.elim
  | _ => cases y <;> simp [looseEq, equal, number?, sameNumber]

/-- A value without parts is loosely equal to those with the same standard form. -/
theorem looseEq_iff_standard (h : x.Flat) : looseEq x y = true ↔ x.standard = y.standard := by
  rw [looseEq_eq_of_flat h, Bool.or_eq_true]
  constructor
  · rintro (he | hs)
    · exact standard_of_equal h he
    · cases hx : x.number? with
      | none =>
        rw [hx] at hs
        cases hs
      | some a =>
        cases hy : y.number? with
        | none =>
          rw [hx, hy] at hs
          cases hs
        | some b =>
          rw [hx, hy, sameNumber, Binary64.equal_iff_standard] at hs
          rw [standard_of_some hx, standard_of_some hy, hs]
  · intro hs
    cases hx : x.number? with
    | none =>
      apply Or.inl
      rw [standard_of_none hx] at hs
      rw [eq_of_standard_eq hx hs.symm]
      exact equal_refl h.proper
    | some a =>
      apply Or.inr
      cases hy : y.number? with
      | none =>
        rw [standard_of_none hy] at hs
        rw [eq_of_standard_eq hy hs, hy] at hx
        cases hx
      | some b =>
        rw [standard_of_some hx, standard_of_some hy] at hs
        have he : a.standard = b.standard := by simpa using hs
        rw [sameNumber]
        exact Binary64.equal_iff_standard.2 he

theorem forall₂_trans {R : α → α → Prop} {xs ys zs : List α} (hxy : List.Forall₂ R xs ys)
    (hyz : List.Forall₂ R ys zs)
    (he : ∀ x ∈ xs, ∀ y ∈ ys, ∀ z ∈ zs, R x y → R y z → R x z) : List.Forall₂ R xs zs := by
  induction hxy generalizing zs with
  | nil =>
    cases hyz
    exact .nil
  | cons h _ ih =>
    cases hyz with
    | cons h' hrest =>
      apply List.Forall₂.cons
      · exact he _ List.mem_cons_self _ List.mem_cons_self _ List.mem_cons_self h h'
      · apply ih hrest
        intro x hx y hy z hz
        exact he x (List.mem_cons_of_mem _ hx) y (List.mem_cons_of_mem _ hy) z
          (List.mem_cons_of_mem _ hz)

theorem looseEq_array_right (h : looseEq x (.array ys) = true) : ∃ xs, x = .array xs := by
  cases x with
  | array xs => exact ⟨xs, rfl⟩
  | _ => cases h

theorem looseEq_array_left (h : looseEq (.array xs) y = true) : ∃ ys, y = .array ys := by
  cases y with
  | array ys => exact ⟨ys, rfl⟩
  | _ => cases h

theorem looseEq_object_left (h : looseEq (.object m) y = true) : ∃ n, y = .object n := by
  cases y with
  | object n => exact ⟨n, rfl⟩
  | _ => cases h

/-- Only values without parts are loosely equal to one without parts. -/
theorem Flat.of_looseEq (hx : x.Flat) (h : looseEq x y = true) : y.Flat := by
  cases y with
  | array ys =>
    obtain ⟨xs, rfl⟩ := looseEq_array_right h
    exact hx
  | object n =>
    obtain ⟨m, rfl⟩ := looseEq_object_right h
    exact hx
  | _ => trivial

theorem looseEq_symm_of_flat (hx : x.Flat) (h : looseEq x y = true) : looseEq y x = true :=
  (looseEq_iff_standard (Flat.of_looseEq hx h)).2 ((looseEq_iff_standard hx).1 h).symm

theorem looseEq_symm (hx : Proper x) : ∀ y, Proper y → looseEq x y = true → looseEq y x = true := by
  induction hx with
  | array _ ih =>
    intro y hy h
    obtain ⟨ys, rfl⟩ := looseEq_array_left h
    cases hy with
    | array hys =>
      rw [looseEq, looseEqItems_iff] at h ⊢
      exact forall₂_symm h fun x hx y hy => ih x hx y (hys y hy)
  | @object m hm _ ih =>
    intro y hy h
    obtain ⟨n, rfl⟩ := looseEq_object_left h
    apply (looseEq_object_iff hy.distinct hm).2
    intro name
    have hrel := (looseEq_object_iff hm hy.distinct).1 h name
    cases hv : Entries.get? m name with
    | none =>
      rw [hv] at hrel
      rw [eq_none_of_rel hrel]
      exact .none
    | some v =>
      obtain ⟨w, hw, hvw⟩ := exists_of_rel (hv ▸ hrel)
      rw [hw]
      exact .some (ih _ (Entries.mem_of_get? hv) w (hy.get? hw) hvw)
  | _ => exact fun _ _ => looseEq_symm_of_flat trivial

theorem looseEq_trans_of_flat (hx : x.Flat) (hxy : looseEq x y = true) (hyz : looseEq y z = true) :
    looseEq x z = true := by
  have hs := (looseEq_iff_standard hx).1 hxy
  have hs' := (looseEq_iff_standard (Flat.of_looseEq hx hxy)).1 hyz
  exact (looseEq_iff_standard hx).2 (hs.trans hs')

theorem looseEq_trans (hx : Proper x) : ∀ y, Proper y → ∀ z, Proper z → looseEq x y = true →
    looseEq y z = true → looseEq x z = true := by
  induction hx with
  | array _ ih =>
    intro y hy z hz hxy hyz
    obtain ⟨ys, rfl⟩ := looseEq_array_left hxy
    obtain ⟨zs, rfl⟩ := looseEq_array_left hyz
    cases hy with
    | array hys =>
      cases hz with
      | array hzs =>
        rw [looseEq, looseEqItems_iff] at hxy hyz ⊢
        apply forall₂_trans hxy hyz
        intro x hx y hy z hz
        exact ih x hx y (hys y hy) z (hzs z hz)
  | @object m hm _ ih =>
    intro y hy z hz hxy hyz
    obtain ⟨n, rfl⟩ := looseEq_object_left hxy
    obtain ⟨k, rfl⟩ := looseEq_object_left hyz
    apply (looseEq_object_iff hm hz.distinct).2
    intro name
    have hrel := (looseEq_object_iff hm hy.distinct).1 hxy name
    have hrel' := (looseEq_object_iff hy.distinct hz.distinct).1 hyz name
    cases hu : Entries.get? m name with
    | none =>
      rw [hu] at hrel
      rw [eq_none_of_rel hrel] at hrel'
      rw [eq_none_of_rel hrel']
      exact .none
    | some u =>
      obtain ⟨v, hv, huv⟩ := exists_of_rel (hu ▸ hrel)
      obtain ⟨w, hw, hvw⟩ := exists_of_rel (hv ▸ hrel')
      rw [hw]
      exact .some (ih _ (Entries.mem_of_get? hu) v (hy.get? hv) w (hz.get? hw) huv hvw)
  | _ => exact fun _ _ _ _ => looseEq_trans_of_flat trivial

/-- Loose equality is an equivalence relation on the values of documents. It does not look at the
order of fields: equal values are loosely equal to the same values. -/
theorem looseEq_equivalence :
    Equivalence (fun x y : { v : Value // v.Proper } => looseEq x.1 y.1 = true) ∧
    (∀ x y : { v : Value // v.Proper }, looseEq x.1 y.1 = looseEq y.1 x.1) ∧
    ∀ x x' y : { v : Value // v.Proper }, equal x.1 x'.1 = true →
      looseEq x.1 y.1 = looseEq x'.1 y.1 := by
  have hsymm (x y : { v : Value // v.Proper }) (h : looseEq x.1 y.1 = true) :
      looseEq y.1 x.1 = true := looseEq_symm x.2 y.1 y.2 h
  refine ⟨⟨fun x => looseEq_refl x.2, fun {x y} => hsymm x y, ?_⟩, ?_, ?_⟩
  · intro x y z
    exact looseEq_trans x.2 y.1 y.2 z.1 z.2
  · intro x y
    rw [Bool.eq_iff_iff]
    exact ⟨hsymm x y, hsymm y x⟩
  · intro x x' y h
    exact looseEq_congr x.2 x'.1 x'.2 h y.1 y.2

example : looseEq (.string "1e1") (.number (.integer 10)) = true ∧
    looseEq (.number (.integer 10)) (.string " 10.0") = true ∧
    looseEq (.string "1e1") (.string " 10.0") = true := by
  decide +kernel

end Column

end FormLayout
