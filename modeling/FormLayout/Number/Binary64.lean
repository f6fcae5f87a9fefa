/-!
Finite binary floating point numbers of 64 bits. Every such number is a whole multiple of the least
positive one, so all arithmetic here is exact arithmetic on natural numbers, rounded once.
-/

namespace FormLayout

/-- A finite floating point number: its sign, and its other 63 bits read as a number. -/
structure Binary64 where
  negative : Bool
  magnitude : Nat
  finite : magnitude < 2047 * Nat.pow 2 52
  deriving DecidableEq, Repr

/-- The quotient rounded to the nearest whole number, a half to the even neighbour. -/
def roundDiv (num den : Nat) : Nat :=
  let q := num / den
  let r := num % den
  if 2 * r < den then q else if den < 2 * r then q + 1 else q + q % 2

namespace Binary64

/-- The absolute value with the given 63 bits, counted in units of `2 ^ -1074`. -/
def unitsOf (magnitude : Nat) : Nat :=
  let exponent := magnitude / Nat.pow 2 52
  if exponent = 0 then magnitude
  else (Nat.pow 2 52 + magnitude % Nat.pow 2 52) * Nat.pow 2 (exponent - 1)

def units (x : Binary64) : Nat := unitsOf x.magnitude

def zero (negative : Bool) : Binary64 := ⟨negative, 0, by decide⟩

/-- The number nearest to a quotient, a tie to the even neighbour; none when it is too large. -/
def nearest? (negative : Bool) (num den : Nat) : Option Binary64 :=
  let n := num * Nat.pow 2 1074
  let shift := Nat.log2 (n / den) - 52
  let magnitude := shift * Nat.pow 2 52 + roundDiv n (den * Nat.pow 2 shift)
  if h : magnitude < 2047 * Nat.pow 2 52 then some ⟨negative, magnitude, h⟩ else none

def ofInt? (n : Int) : Option Binary64 := nearest? (decide (n < 0)) n.natAbs 1

def mul? (x y : Binary64) : Option Binary64 :=
  nearest? (x.negative != y.negative) (x.units * y.units) (Nat.pow 2 2148)

def div? (x y : Binary64) : Option Binary64 :=
  nearest? (x.negative != y.negative) x.units y.units

/-- Equality as numbers: the two zeros are equal. -/
def equal (x y : Binary64) : Bool :=
  x.magnitude == y.magnitude && (x.magnitude == 0 || x.negative == y.negative)

theorem equal_refl (x : Binary64) : equal x x = true := by simp [equal]

theorem equal_comm (x y : Binary64) : equal x y = equal y x := by
  by_cases h : x.magnitude = y.magnitude
  · simp [equal, h, BEq.comm (a := x.negative)]
  · rw [equal, equal, beq_false_of_ne h, beq_false_of_ne (Ne.symm h)]
    rfl

theorem equal_trans {x y z : Binary64} (hxy : equal x y = true) (hyz : equal y z = true) :
    equal x z = true := by
  simp only [equal, Bool.and_eq_true, Bool.or_eq_true, beq_iff_eq] at *
  refine ⟨hxy.1.trans hyz.1, ?_⟩
  rcases hxy.2 with h | h
  · exact .inl h
  · rcases hyz.2 with h' | h'
    · exact .inl (hxy.1.trans h')
    · exact .inr (h.trans h')

end Binary64

end FormLayout
