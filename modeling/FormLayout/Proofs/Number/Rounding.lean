import FormLayout.Number.Literal
import FormLayout.Number.Radix
import FormLayout.Proofs.Text
import Mathlib.Data.List.TakeWhile
import Mathlib.Data.Nat.Digits.Defs
/-!
Rounding of whole numbers to floating point numbers. A greater number is never rounded to a smaller
one, and below `2 ^ 53` none is rounded to the same as another. Texts of digits are read exactly, so
they are rounded like the integers that they denote.
-/

namespace FormLayout
set_option autoImplicit true

theorem div_le_roundDiv (n d : Nat) : n / d ≤ roundDiv n d := by
  rw [roundDiv]
  split
  · exact Nat.le_refl _
  · split <;> omega

theorem roundDiv_le_succ (n d : Nat) : roundDiv n d ≤ n / d + 1 := by
  rw [roundDiv]
  split
  · exact Nat.le_succ _
  · split <;> omega

theorem roundDiv_mono (h : m ≤ n) (d : Nat) : roundDiv m d ≤ roundDiv n d := by
  have hq : m / d ≤ n / d := Nat.div_le_div_right h
  rcases Nat.lt_or_eq_of_le hq with hlt | heq
  · calc
      roundDiv m d ≤ m / d + 1 := roundDiv_le_succ m d
      _ ≤ n / d := hlt
      _ ≤ roundDiv n d := div_le_roundDiv n d
  · -- Over one quotient the greater number has the greater remainder.
    have hr : m % d ≤ n % d := by
      have hm := Nat.div_add_mod m d
      have hn := Nat.div_add_mod n d
      rw [heq] at hm
      omega
    rw [roundDiv, roundDiv, heq]
    split
    · split
      · exact Nat.le_refl _
      · split <;> omega
    · split
      · rw [if_neg (by omega), if_pos (by omega)]
      · split
        · omega
        · split <;> omega

theorem roundDiv_of_dvd (h : d ∣ n) (hd : 0 < d) : roundDiv n d = n / d := by
  rw [roundDiv]
  rw [Nat.mod_eq_zero_of_dvd h, if_pos (by omega)]

theorem roundDiv_lt (h : d ∣ m) (hd : 0 < d) (hlt : m + d ≤ n) : roundDiv m d < roundDiv n d := by
  have hstep : m / d + 1 ≤ n / d := by
    rw [← Nat.add_div_right m hd]
    exact Nat.div_le_div_right hlt
  calc
    roundDiv m d = m / d := roundDiv_of_dvd h hd
    _ < n / d := hstep
    _ ≤ roundDiv n d := div_le_roundDiv n d

namespace Binary64

/-- How many bits are rounded off a number of units. -/
def cut (units : Nat) : Nat := Nat.log2 units - 52

/-- The last 63 bits of the number nearest to a number of units, as if there were no greatest one. -/
def bitsOf (units : Nat) : Nat :=
  cut units * Nat.pow 2 52 + roundDiv units (Nat.pow 2 (cut units))

theorem log2_mono (h : m ≤ n) : Nat.log2 m ≤ Nat.log2 n := by
  by_cases hm : m = 0
  · rw [hm]
    exact Nat.zero_le _
  · have hn : n ≠ 0 := by omega
    exact (Nat.le_log2 hn).2 (Nat.le_trans (Nat.log2_self_le hm) h)

theorem cut_mono (h : m ≤ n) : cut m ≤ cut n := Nat.sub_le_sub_right (log2_mono h) 52

theorem lt_of_cut (n : Nat) : n < 2 ^ 53 * 2 ^ cut n := by
  have hlog : n < 2 ^ (Nat.log2 n + 1) := Nat.lt_log2_self
  have hle : Nat.log2 n + 1 ≤ 53 + cut n := by
    rw [cut]
    omega
  rw [← Nat.pow_add]
  exact Nat.lt_of_lt_of_le hlog (Nat.pow_le_pow_right (by decide) hle)

theorem bitsOf_le (n : Nat) : bitsOf n ≤ (cut n + 2) * 2 ^ 52 := by
  have hlt := lt_of_cut n
  rw [bitsOf]
  have hq : n / 2 ^ cut n < 2 ^ 53 := Nat.div_lt_of_lt_mul (Nat.mul_comm _ _ ▸ hlt)
  have hr := roundDiv_le_succ n (2 ^ cut n)
  simp only [Nat.pow_eq]
  omega

theorem bitsOf_lt (h : 2 ^ cut n ∣ n) : bitsOf n < (cut n + 2) * 2 ^ 52 := by
  have hlt := lt_of_cut n
  have hq : n / 2 ^ cut n < 2 ^ 53 := Nat.div_lt_of_lt_mul (Nat.mul_comm _ _ ▸ hlt)
  have hr := roundDiv_of_dvd h (Nat.two_pow_pos _)
  rw [bitsOf]
  simp only [Nat.pow_eq]
  omega

theorem le_bitsOf (h : 0 < cut n) : (cut n + 1) * 2 ^ 52 ≤ bitsOf n := by
  have hlog : Nat.log2 n = 52 + cut n := by
    rw [cut] at h ⊢
    omega
  have hne : n ≠ 0 := by
    rintro rfl
    cases h
  have hle : 2 ^ 52 * 2 ^ cut n ≤ n := by
    rw [← Nat.pow_add, ← hlog]
    exact Nat.log2_self_le hne
  have hq : 2 ^ 52 ≤ n / 2 ^ cut n := (Nat.le_div_iff_mul_le (Nat.two_pow_pos _)).2 hle
  have hr := div_le_roundDiv n (2 ^ cut n)
  rw [bitsOf]
  simp only [Nat.pow_eq]
  omega

theorem bitsOf_mono (h : m ≤ n) : bitsOf m ≤ bitsOf n := by
  rcases Nat.lt_or_eq_of_le (cut_mono h) with hlt | heq
  · calc
      bitsOf m ≤ (cut m + 2) * 2 ^ 52 := bitsOf_le m
      _ ≤ (cut n + 1) * 2 ^ 52 := Nat.mul_le_mul_right _ (by omega)
      _ ≤ bitsOf n := le_bitsOf (by omega)
  · rw [bitsOf, bitsOf, heq]
    exact Nat.add_le_add_left (roundDiv_mono h _) _

/-- Numbers that nothing is rounded off stay apart. -/
theorem bitsOf_strictMono (h : 2 ^ cut m ∣ m) (hlt : m + 2 ^ cut m ≤ n) : bitsOf m < bitsOf n := by
  have hle : m ≤ n := Nat.le_trans (Nat.le_add_right _ _) hlt
  rcases Nat.lt_or_eq_of_le (cut_mono hle) with hcut | heq
  · calc
      bitsOf m < (cut m + 2) * 2 ^ 52 := bitsOf_lt h
      _ ≤ (cut n + 1) * 2 ^ 52 := Nat.mul_le_mul_right _ (by omega)
      _ ≤ bitsOf n := le_bitsOf (by omega)
  · rw [bitsOf, bitsOf, ← heq]
    exact Nat.add_lt_add_left (roundDiv_lt h (Nat.two_pow_pos _) hlt) _

/-- The last 63 bits of the number nearest to a whole number. -/
def wholeBits (n : Nat) : Nat := bitsOf (n * Nat.pow 2 1074)

theorem nearest?_eq (negative : Bool) (n : Nat) : nearest? negative n 1 =
    if h : wholeBits n < 2047 * Nat.pow 2 52 then some ⟨negative, wholeBits n, h⟩ else none := by
  rw [nearest?]
  simp only [Nat.div_one, Nat.one_mul]
  rfl

theorem wholeBits_mono (h : m ≤ n) : wholeBits m ≤ wholeBits n :=
  bitsOf_mono (Nat.mul_le_mul_right _ h)

theorem cut_le (h : m < 2 ^ 53) (k : Nat) : cut (m * 2 ^ k) ≤ k := by
  by_cases hm : m * 2 ^ k = 0
  · rw [hm]
    exact Nat.zero_le _
  · have hlt : m * 2 ^ k < 2 ^ (53 + k) := by
      rw [Nat.pow_add]
      exact Nat.mul_lt_mul_of_pos_right h (Nat.two_pow_pos k)
    have hlog := (Nat.log2_lt hm).2 hlt
    rw [cut]
    omega

theorem bitsOf_scaled_lt (h : m < 2 ^ 53) (hlt : m < n) (k : Nat) :
    bitsOf (m * Nat.pow 2 k) < bitsOf (n * Nat.pow 2 k) := by
  have hcut := cut_le h k
  apply bitsOf_strictMono
  · exact Nat.dvd_mul_left_of_dvd (Nat.pow_dvd_pow 2 hcut) m
  · calc
      m * 2 ^ k + 2 ^ cut (m * 2 ^ k) ≤ m * 2 ^ k + 2 ^ k :=
        Nat.add_le_add_left (Nat.pow_le_pow_right (by decide) hcut) _
      _ = (m + 1) * 2 ^ k := (Nat.succ_mul m _).symm
      _ ≤ n * 2 ^ k := Nat.mul_le_mul_right _ hlt

/-- Below `2 ^ 53` each whole number has bits of its own. -/
theorem wholeBits_strictMono (h : m < 2 ^ 53) (hlt : m < n) : wholeBits m < wholeBits n := by
  rw [wholeBits, wholeBits]
  generalize 1074 = k
  exact bitsOf_scaled_lt h hlt k

/-- A number below `2 ^ 53` is the only one with its bits. -/
theorem wholeBits_inj (hk : k < 2 ^ 53) (h : wholeBits k = wholeBits l) : k = l := by
  rcases Nat.lt_trichotomy k l with hlt | he | hlt
  · exact absurd h (Nat.ne_of_lt (wholeBits_strictMono hk hlt))
  · exact he
  · exact absurd h (Nat.ne_of_gt (wholeBits_strictMono (Nat.lt_trans hlt hk) hlt))

theorem wholeBits_eq_zero_iff : wholeBits n = 0 ↔ n = 0 := by
  have hzero : wholeBits 0 = 0 := by decide +kernel
  constructor
  · intro h
    exact (wholeBits_inj (by decide) (hzero.trans h.symm)).symm
  · rintro rfl
    exact hzero

/-- The least whole number that is rounded beyond the finite numbers. -/
def bound : Nat := Nat.pow 2 1024 - Nat.pow 2 970

theorem wholeBits_lt_iff : wholeBits n < 2047 * Nat.pow 2 52 ↔ n < bound := by
  have hbelow : wholeBits (bound - 1) < 2047 * Nat.pow 2 52 := by decide +kernel
  have hfrom : 2047 * Nat.pow 2 52 ≤ wholeBits bound := by decide +kernel
  constructor
  · intro h
    by_contra hn
    exact absurd (wholeBits_mono (Nat.le_of_not_lt hn)) (by omega)
  · intro h
    exact Nat.lt_of_le_of_lt (wholeBits_mono (Nat.le_sub_one_of_lt h)) hbelow

end Binary64

/-- A decimal without places is rounded like the whole number that it is. -/
theorem Decimal.nearest?_whole (negative : Bool) (n : Nat) :
    Decimal.nearest? negative ⟨n, 0⟩ = Binary64.nearest? negative n 1 := by
  rw [Decimal.nearest?]
  by_cases hzero : n = 0
  · rw [if_pos hzero, hzero, Binary64.nearest?_eq]
    simp only [Binary64.wholeBits_eq_zero_iff.2]
    rfl
  · rw [if_neg hzero]
    dsimp only
    split
    · next hsize =>
      -- A number of so many digits is beyond the greatest finite one.
      have hlarge : 10 ^ 310 ≤ n := by
        by_contra hn
        have hlen := Nat.toDigits_length 10 n 310 (by decide) (Nat.lt_of_not_le hn)
        rw [Decimal.digitCount, if_neg hzero] at hsize
        omega
      have hbound : Binary64.bound ≤ 10 ^ 310 := by decide +kernel
      have hover : ¬ Binary64.wholeBits n < 2047 * Nat.pow 2 52 := by
        rw [Binary64.wholeBits_lt_iff]
        exact Nat.not_lt.2 (Nat.le_trans hbound hlarge)
      rw [Binary64.nearest?_eq, dif_neg hover]
    · rw [if_neg (by omega)]
      exact congrArg (Binary64.nearest? negative · 1) (Nat.mul_one n)

namespace Radix

theorem digit?_ten (h : digit? 10 c = some d) : c.isDigit = true ∧ Literal.digitValue c = d := by
  have hletter {a b : Char} (ha : (a ≤ c && c ≤ b) = true) : a.toNat ≤ c.toNat := by
    rw [Bool.and_eq_true, decide_eq_true_eq] at ha
    exact ha.1
  rw [digit?] at h
  split at h
  · next hd =>
    split at h
    · exact ⟨hd, Option.some.inj h⟩
    · cases h
  · split at h
    · next hle =>
      have hc : 97 ≤ c.toNat := hletter hle
      rw [if_neg (by omega)] at h
      cases h
    · split at h
      · next hle =>
        have hc : 65 ≤ c.toNat := hletter hle
        rw [if_neg (by omega)] at h
        cases h
      · cases h

theorem natural?_ten (h : natural? 10 ds = some n) :
    ds ≠ [] ∧ ds.all Char.isDigit = true ∧ Literal.ofDigits ds = n := by
  have hfold (l : List Char) (a : Nat)
      (hl : l.foldlM (fun n c => (digit? 10 c).map fun d => 10 * n + d) a = some n) :
      l.all Char.isDigit = true ∧ l.foldl (fun n c => 10 * n + Literal.digitValue c) a = n := by
    induction l generalizing a with
    | nil => exact ⟨rfl, Option.some.inj hl⟩
    | cons c l ih =>
      rw [List.foldlM_cons] at hl
      obtain ⟨b, hb, hl⟩ := Option.bind_eq_some_iff.1 hl
      obtain ⟨d, hd, rfl⟩ := Option.map_eq_some_iff.1 hb
      obtain ⟨hdigit, rfl⟩ := digit?_ten hd
      obtain ⟨hall, hn⟩ := ih _ hl
      exact ⟨by rw [List.all_cons, hdigit, hall]; rfl, hn⟩
  rw [natural?] at h
  split at h
  · cases h
  · next hne =>
    refine ⟨?_, hfold ds 0 h⟩
    rintro rfl
    exact hne rfl

end Radix

namespace Literal

/-- The integer that digits denote, with a sign in front or without one. -/
def integer? : List Char → Option Int
  | '-' :: digits => (Radix.natural? 10 digits).map fun (n : Nat) => -(n : Int)
  | '+' :: digits => (Radix.natural? 10 digits).map fun (n : Nat) => (n : Int)
  | digits => (Radix.natural? 10 digits).map fun (n : Nat) => (n : Int)

theorem span_digits (h : ds.all Char.isDigit = true) : span ds = (ds, []) := by
  rw [List.all_eq_true] at h
  rw [span, List.takeWhile_eq_self_iff.2 h, List.dropWhile_eq_nil_iff.2 h]

/-- A text of digits is rounded like the integer that it denotes, but a zero keeps its sign. -/
theorem decimal?_eq_nearest? (h : integer? cs = some n) : ∃ negative,
    decimal? cs = Binary64.nearest? negative n.natAbs 1 ∧ (n ≠ 0 → negative = decide (n < 0)) := by
  rw [integer?.eq_def] at h
  split at h
  · obtain ⟨k, hk, rfl⟩ := Option.map_eq_some_iff.1 h
    obtain ⟨hne, hall, rfl⟩ := Radix.natural?_ten hk
    refine ⟨true, ?_, fun hzero => (decide_eq_true (by omega)).symm⟩
    simp [decimal?, span_digits hall, tail?, hne, Decimal.nearest?_whole]
  · obtain ⟨k, hk, rfl⟩ := Option.map_eq_some_iff.1 h
    obtain ⟨hne, hall, rfl⟩ := Radix.natural?_ten hk
    refine ⟨false, ?_, fun _ => (decide_eq_false (by omega)).symm⟩
    simp [decimal?, span_digits hall, tail?, hne, Decimal.nearest?_whole]
  · obtain ⟨k, hk, rfl⟩ := Option.map_eq_some_iff.1 h
    obtain ⟨hne, hall, rfl⟩ := Radix.natural?_ten hk
    refine ⟨false, ?_, fun _ => (decide_eq_false (by omega)).symm⟩
    simp [decimal?, span_digits hall, tail?, hne, Decimal.nearest?_whole]

/-- No blank stands in a text of digits. -/
theorem trimmed_of_integer? (h : integer? cs = some n) : Text.Trimmed cs := by
  have hdigits {ds : List Char} {k : Nat} (hk : Radix.natural? 10 ds = some k) :
      ∀ c ∈ ds, Text.isBlank c = false := by
    intro c hc
    exact Text.isBlank_of_isDigit (List.all_eq_true.1 (Radix.natural?_ten hk).2.1 c hc)
  apply Text.trimmed_of_forall
  rw [integer?.eq_def] at h
  split at h
  · obtain ⟨k, hk, rfl⟩ := Option.map_eq_some_iff.1 h
    exact List.forall_mem_cons.2 ⟨by decide, hdigits hk⟩
  · obtain ⟨k, hk, rfl⟩ := Option.map_eq_some_iff.1 h
    exact List.forall_mem_cons.2 ⟨by decide, hdigits hk⟩
  · obtain ⟨k, hk, rfl⟩ := Option.map_eq_some_iff.1 h
    exact hdigits hk

end Literal

end FormLayout
