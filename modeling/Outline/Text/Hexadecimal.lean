/-!
Numbers in hexadecimal digits: small ones when written, small or capital when read.
-/
namespace Outline.Hexadecimal
set_option autoImplicit false

/-- The character of a digit. -/
def digit (d : Nat) : Char := Char.ofNat (if d < 10 then 48 + d else 87 + d)

/-- The digits of a number, the highest first, without leading zeros. -/
def chars (n : Nat) : List Char :=
  if n < 16 then [digit n] else chars (n / 16) ++ [digit (n % 16)]
  termination_by n
  decreasing_by omega

/-- The value of a byte that is a digit. -/
def value? (b : UInt8) : Option Nat :=
  if 0x30 ≤ b ∧ b ≤ 0x39 then some (b.toNat - 0x30)
  else if 0x61 ≤ b ∧ b ≤ 0x66 then some (b.toNat - 0x61 + 10)
  else if 0x41 ≤ b ∧ b ≤ 0x46 then some (b.toNat - 0x41 + 10)
  else none

end Outline.Hexadecimal
