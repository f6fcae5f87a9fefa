/-!
Natural numbers in some base, and the characters that hexadecimal digits stand for.
-/

namespace FormLayout.Radix

/-- The value of a digit, in a base of at most sixteen. -/
def digit? (base : Nat) (c : Char) : Option Nat :=
  let value :=
    if c.isDigit then c.toNat - 48
    else if 'a' ≤ c && c ≤ 'f' then c.toNat - 87
    else if 'A' ≤ c && c ≤ 'F' then c.toNat - 55
    else 16
  if value < base then some value else none

/-- The number that some digits stand for, at least one. -/
def natural? (base : Nat) (digits : List Char) : Option Nat :=
  if digits.isEmpty then none
  else digits.foldlM (fun n c => (digit? base c).map fun d => base * n + d) 0

/-- The character of a code point. Halves of surrogate pairs are none. -/
def character? (n : Nat) : Option Char :=
  if n < 0xD800 || (0xE000 ≤ n && n < 0x110000) then some (Char.ofNat n) else none

/-- The character whose code point has the given hexadecimal digits. -/
def hexCharacter? (digits : List Char) : Option Char := (natural? 16 digits).bind character?

end FormLayout.Radix
