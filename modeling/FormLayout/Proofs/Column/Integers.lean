import FormLayout.Proofs.Column.Equivalence
import FormLayout.Proofs.Column.Rebase
import FormLayout.Proofs.Number.Rounding
/-!
Loose equality of integers, written as numbers or as texts of digits. They are compared after they
were rounded, so those below `2 ^ 53` are compared by value, and greater ones may be taken for others.
-/

namespace FormLayout
set_option autoImplicit true
open Value

/-- The integer that a value denotes, as a number or as a text of digits. -/
def Value.integer? : Value → Option Int
  | .number (.integer n) => some n
  | .string s => Literal.integer? s.toList
  | .null | .bool _ | .number (.float _) | .array _ | .object _ => none

namespace Value

theorem flat_of_integer? (h : integer? v = some n) : v.Flat := by
  cases v with
  | array xs => cases h
  | object m => cases h
  | _ => trivial

/-- The number of an integer is the nearest one, but a zero keeps its sign. -/
theorem number?_of_integer? (h : integer? v = some n) : ∃ negative,
    v.number? = Binary64.nearest? negative n.natAbs 1 ∧ (n ≠ 0 → negative = decide (n < 0)) := by
  cases v with
  | number k =>
    cases k with
    | integer k =>
      cases h
      exact ⟨decide (n < 0), rfl, fun _ => rfl⟩
    | float x => cases h
  | string s =>
    rw [number?, Column.numericText?, (Literal.trimmed_of_integer? h).trim_eq]
    exact Literal.decimal?_eq_nearest? h
  | _ => cases h

theorem equal_iff_of_integer? (hx : integer? x = some m) (hy : integer? y = some n) :
    equal x y = true ↔ x = y := by
  constructor
  · intro h
    cases x with
    | number k =>
      cases k with
      | integer k =>
        cases y with
        | number l =>
          cases l with
          | integer l => rw [eq_of_beq h]
          | float b => cases hy
        | _ => cases h
      | float a => cases hx
    | string s =>
      cases y with
      | string t => rw [eq_of_beq h]
      | _ => cases h
    | _ => cases hx
  · rintro rfl
    exact equal_refl (flat_of_integer? hx).proper

end Value

namespace Column

theorem sameNumber_nearest? (s t : Bool) (k l : Nat) :
    sameNumber (Binary64.nearest? s k 1) (Binary64.nearest? t l 1) = true ↔
      Binary64.wholeBits k = Binary64.wholeBits l ∧ k < Binary64.bound ∧ (k = 0 ∨ s = t) := by
  rw [Binary64.nearest?_eq, Binary64.nearest?_eq]
  by_cases hk : Binary64.wholeBits k < 2047 * Nat.pow 2 52
  · rw [dif_pos hk]
    by_cases hl : Binary64.wholeBits l < 2047 * Nat.pow 2 52
    · rw [dif_pos hl, sameNumber, Binary64.equal]
      simp only [Bool.and_eq_true, Bool.or_eq_true, beq_iff_eq, Binary64.wholeBits_eq_zero_iff,
        Binary64.wholeBits_lt_iff.1 hk, true_and]
    · rw [dif_neg hl]
      exact iff_of_false Bool.false_ne_true fun h => hl (h.1 ▸ hk)
  · rw [dif_neg hk]
    exact iff_of_false Bool.false_ne_true fun h => hk (Binary64.wholeBits_lt_iff.2 h.2.1)

/-- Integers are the same number when they are rounded to the same bits and have the same sign. -/
theorem sameNumber_iff (hx : integer? x = some m) (hy : integer? y = some n) :
    sameNumber x.number? y.number? = true ↔
      Binary64.wholeBits m.natAbs = Binary64.wholeBits n.natAbs ∧ m.natAbs < Binary64.bound ∧
        (m = 0 ∨ (m < 0 ↔ n < 0)) := by
  obtain ⟨s, hs, hsign⟩ := number?_of_integer? hx
  obtain ⟨t, ht, hsign'⟩ := number?_of_integer? hy
  rw [hs, ht, sameNumber_nearest?, Int.natAbs_eq_zero]
  refine and_congr_right fun hbits => and_congr_right fun _ => or_congr_right' fun hm => ?_
  have hn : n ≠ 0 := by
    rintro rfl
    have hzero := hbits.trans (Binary64.wholeBits_eq_zero_iff.2 rfl)
    exact hm (Int.natAbs_eq_zero.1 (Binary64.wholeBits_eq_zero_iff.1 hzero))
  rw [hsign hm, hsign' hn, decide_eq_decide]

/-- Two integers that are told apart also after they were rounded: one of them is small, or they are
the same up to the sign. -/
def ToldApart (m n : Int) : Prop :=
  m.natAbs < 2 ^ 53 ∨ n.natAbs < 2 ^ 53 ∨ m.natAbs = n.natAbs ∧ m.natAbs < Binary64.bound

theorem ToldApart.natAbs_eq (h : ToldApart m n)
    (hbits : Binary64.wholeBits m.natAbs = Binary64.wholeBits n.natAbs) : m.natAbs = n.natAbs := by
  rcases h with hm | hn | ⟨he, _⟩
  · exact Binary64.wholeBits_inj hm hbits
  · exact (Binary64.wholeBits_inj hn hbits.symm).symm
  · exact he

theorem ToldApart.lt_bound (h : ToldApart m m) : m.natAbs < Binary64.bound := by
  have hsmall : 2 ^ 53 ≤ Binary64.bound := by decide +kernel
  rcases h with hm | hm | ⟨_, hm⟩
  · exact Nat.lt_of_lt_of_le hm hsmall
  · exact Nat.lt_of_lt_of_le hm hsmall
  · exact hm

/-- What is decided about two integers by rounding them. -/
theorem looseEq_iff_rounded (hx : integer? x = some m) (hy : integer? y = some n) :
    looseEq x y = true ↔
      x = y ∨ sameNumber (Binary64.ofInt? m) (Binary64.ofInt? n) = true := by
  have hnumbers : sameNumber x.number? y.number? = true ↔
      sameNumber (Binary64.ofInt? m) (Binary64.ofInt? n) = true := by
    rw [sameNumber_iff hx hy]
    exact (sameNumber_iff (x := .number (.integer m)) (y := .number (.integer n)) rfl rfl).symm
  rw [looseEq_eq_of_flat (flat_of_integer? hx), Bool.or_eq_true, equal_iff_of_integer? hx hy,
    hnumbers]

theorem looseEq_iff_of_toldApart (hx : integer? x = some m) (hy : integer? y = some n)
    (h : ToldApart m n) : looseEq x y = true ↔ m = n := by
  rw [looseEq_eq_of_flat (flat_of_integer? hx), Bool.or_eq_true, equal_iff_of_integer? hx hy,
    sameNumber_iff hx hy]
  constructor
  · rintro (rfl | ⟨hbits, _, hsign⟩)
    · exact Option.some.inj (hx.symm.trans hy)
    · have habs := h.natAbs_eq hbits
      omega
  · rintro rfl
    exact .inr ⟨rfl, h.lt_bound, .inr Iff.rfl⟩

/-- A change of a value without parts is in the difference, at any depth. -/
theorem at?_diff (hflat : y.Flat) (hne : looseEq x y = false) {base derived : Fields}
    (hd : Proper (.object derived)) (hx : at? (some (.object base)) path = some x)
    (hy : at? (some (.object derived)) path = some y) :
    at? (some (.object (diff base derived))) path = some y := by
  induction path generalizing base derived with
  | nil =>
    cases hy
    exact hflat.elim
  | cons key rest ih =>
    rw [at?] at hx hy ⊢
    rw [get?_diff base hd.distinct]
    cases hv : Entries.get? derived key with
    | none =>
      rw [hv, at?_none] at hy
      cases hy
    | some v =>
      cases hw : Entries.get? base key with
      | none =>
        rw [hw, at?_none] at hx
        cases hx
      | some w =>
        rw [hv] at hy
        rw [hw] at hx
        rw [Option.bind_some]
        cases rest with
        | nil =>
          cases hx
          cases hy
          have hapart : Apart (some x) y := by
            rintro b d - rfl
            exact hflat
          rw [change?_of_apart hapart]
          dsimp only
          rw [if_neg (by simp [hne])]
          rfl
        | cons next rest =>
          obtain ⟨inner, hi⟩ := exists_object_of_at? hx
          obtain ⟨changed, hc⟩ := exists_object_of_at? hy
          cases hi
          cases hc
          have hat := ih (hd.get? hv) hx hy
          have hsome : diff inner changed ≠ [] := by
            intro hnil
            rw [hnil, at?, Entries.get?, at?_none] at hat
            cases hat
          rw [change?_objects, if_neg hsome]
          exact hat

/-- Integers are loosely equal when they are written the same or rounded to the same number. If one of
them is below `2 ^ 53`, or they are the same up to the sign, that is when they are the same integer,
and then no change of one to the other is left out of a difference. -/
theorem looseEq_integers {x y : Value} {m n : Int} (hx : x.integer? = some m)
    (hy : y.integer? = some n) :
    (looseEq x y = true ↔
      x = y ∨ sameNumber (Binary64.ofInt? m) (Binary64.ofInt? n) = true) ∧
    (ToldApart m n → (looseEq x y = true ↔ m = n)) ∧
    (ToldApart m n → m ≠ n → ∀ base derived path, Proper (.object derived) →
      at? (some (.object base)) path = some x → at? (some (.object derived)) path = some y →
      at? (some (.object (diff base derived))) path = some y) := by
  refine ⟨looseEq_iff_rounded hx hy, looseEq_iff_of_toldApart hx hy, ?_⟩
  intro h hne base derived path hd hbase hderived
  have hdiffer : looseEq x y = false := by
    rw [Bool.eq_false_iff]
    exact fun hloose => hne ((looseEq_iff_of_toldApart hx hy h).1 hloose)
  exact at?_diff (flat_of_integer? hy) hdiffer hd hbase hderived

theorem looseEq_integers_of_padded :
    let base : Fields := [("config", .object [("size", .string "-0012")])]
    let derived : Fields := [("config", .object [("size", .number (.integer (-13)))])]
    integer? (.string "-0012") = some (-12) ∧ ToldApart (-12) (-13) ∧
    (looseEq (.string "-0012") (.number (.integer (-13))) = true ↔ (-12 : Int) = -13) ∧
    at? (some (.object (diff base derived))) ["config", "size"] = some (.number (.integer (-13))) ∧
    (looseEq (.string "+018446744073709551615") (.number (.integer 18446744073709551615)) = true ↔
      (18446744073709551615 : Int) = 18446744073709551615) := by
  intro base derived
  have hd : Proper (.object derived) := by
    simp [derived, proper_object_iff, Entries.Distinct, Entries.names, Proper.number]
  have hx : integer? (.string "-0012") = some (-12) := by decide +kernel
  have hapart : ToldApart (-12) (-13) := .inl (by decide)
  have hlarge : ToldApart 18446744073709551615 18446744073709551615 :=
    .inr (.inr ⟨rfl, by decide +kernel⟩)
  have h := looseEq_integers hx (y := .number (.integer (-13))) rfl
  have hsame := looseEq_integers (x := .string "+018446744073709551615")
    (m := 18446744073709551615) (by decide +kernel)
    (y := .number (.integer 18446744073709551615)) rfl
  exact ⟨hx, hapart, h.2.1 hapart, h.2.2 hapart (by decide) base derived _ hd rfl rfl,
    hsame.2.1 hlarge⟩

/-- Neighbours beyond `2 ^ 53` are taken for each other, and the change is lost. Texts of an integer
beyond the finite numbers are compared letter by letter. -/
theorem looseEq_of_neighbours :
    let x : Value := .number (.integer 9007199254740992)
    let y : Value := .number (.integer 9007199254740993)
    let long : List Char := '1' :: List.replicate 400 '0'
    looseEq x y = true ∧ looseEq (.string "9007199254740993") x = true ∧
    looseEq (.string "9007199254740993") (.string "9007199254740992") = true ∧
    (diff [("max", x)] [("max", y)]).isEmpty = true ∧
    integer? (.string (String.ofList long)) = some (10 ^ 400) ∧
    integer? (.string (String.ofList ('0' :: long))) = some (10 ^ 400) ∧
    looseEq (.string (String.ofList long)) (.string (String.ofList ('0' :: long))) = false := by
  intro x y long
  have hlong : integer? (.string (String.ofList long)) = some (10 ^ 400) := by
    rw [integer?, String.toList_ofList]
    decide +kernel
  have hpadded : integer? (.string (String.ofList ('0' :: long))) = some (10 ^ 400) := by
    rw [integer?, String.toList_ofList]
    decide +kernel
  have hover : sameNumber (Binary64.ofInt? (10 ^ 400)) (Binary64.ofInt? (10 ^ 400)) = false := by
    decide +kernel
  have hwritten : long ≠ '0' :: long := by
    intro he
    cases (List.cons.inj he).1
  refine ⟨by decide +kernel, by decide +kernel, by decide +kernel, by decide +kernel, hlong, hpadded,
    ?_⟩
  rw [Bool.eq_false_iff, Ne, looseEq_iff_rounded hlong hpadded, hover]
  rintro (he | hs)
  · exact hwritten (String.ofList_inj.1 (Value.string.inj he))
  · cases hs

end Column

end FormLayout
