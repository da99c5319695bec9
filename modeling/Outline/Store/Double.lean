import Outline.Word

/-!
Numbers of double precision, and how decimal notation is rounded to them.

A number is a whole number of 53 binary digits times a power of two, or beyond all of these. Decimal
notation is rounded to the nearest of them, and to the even one of two that are equally near.
-/
namespace Outline
set_option autoImplicit false

/-- A number of double precision: a significand times a power of two, or one beyond all others. -/
inductive Double where
  | finite (significand : Int) (exponent : Int)
  | infinite (negative : Bool)
  deriving DecidableEq

namespace Double

/-- The digits of a significand. -/
def precision : Nat := 53

/-- The least exponent. -/
def minExponent : Int := -1074

/-- The greatest exponent. -/
def maxExponent : Int := 971

/-- A natural number times two to a power. -/
def shifted (n : Nat) (power : Nat) : Nat := n <<< power

/-- A fraction times two to a power, as numerator and denominator. -/
def scaled (num den : Nat) (power : Int) : Nat × Nat :=
  if 0 ≤ power then (shifted num power.toNat, den) else (num, shifted den (-power).toNat)

/-- The power of two that is not greater than a positive fraction while the next one is. -/
def binaryLog (num den : Nat) : Int :=
  let guess : Int := (num.log2 : Int) - (den.log2 : Int)
  let (n, d) := scaled num den (-guess)
  if d ≤ n then guess else guess - 1

/-- A fraction rounded to a natural number, to even when it lies halfway. -/
def roundHalfEven (num den : Nat) : Nat :=
  let quotient := num / den
  let twice := 2 * (num % den)
  if den < twice ∨ (twice = den ∧ quotient % 2 = 1) then quotient + 1 else quotient

/-- A significand with its sign. -/
def signed (negative : Bool) (n : Nat) : Int := if negative then -(n : Int) else n

/-- A positive fraction with a sign, rounded. -/
def ofFraction (negative : Bool) (num den : Nat) : Double :=
  let exponent := max minExponent (binaryLog num den - (precision - 1 : Nat))
  let (n, d) := scaled num den (-exponent)
  let significand := roundHalfEven n d
  let (significand, exponent) :=
    if significand = shifted 1 precision then (shifted 1 (precision - 1), exponent + 1)
    else (significand, exponent)
  if maxExponent < exponent then .infinite negative
  else if significand = 0 then .finite 0 0
  else .finite (signed negative significand) exponent

/-- The powers of ten, up or down, that leave no significand of 64 bits within range. -/
def decimalRange : Int := 400

/-- A significand times a power of ten with a sign, rounded. -/
def ofDecimal (negative : Bool) (significand : Nat) (exponent : Int) : Double :=
  if significand = 0 ∨ exponent < -decimalRange then .finite 0 0
  else if decimalRange < exponent then .infinite negative
  else if 0 ≤ exponent then ofFraction negative (significand * Nat.pow 10 exponent.toNat) 1
  else ofFraction negative significand (Nat.pow 10 (-exponent).toNat)

/-- A whole number, which is not rounded. -/
def ofInt (i : Int) : Double := .finite i 0

/-- A significand in terms of an exponent that is not greater than its own. -/
def inUnits (significand exponent unit : Int) : Int :=
  significand * (shifted 1 (exponent - unit).toNat : Nat)

/-- The order of two numbers. -/
def ordering : Double → Double → Ordering
  | finite a e, finite b f =>
    let unit := min e f
    compare (inUnits a e unit) (inUnits b f unit)
  | infinite a, infinite b => compare b.toNat a.toNat
  | infinite negative, finite _ _ => if negative then .lt else .gt
  | finite _ _, infinite negative => if negative then .gt else .lt

/-- The whole number that a number is, if it is one. -/
def whole? : Double → Option Int
  | finite significand exponent =>
    if 0 ≤ exponent then some (inUnits significand exponent 0)
    else
      let unit : Int := (shifted 1 (-exponent).toNat : Nat)
      if significand % unit = 0 then some (significand / unit) else none
  | infinite _ => none

/-- The decimal digits of a finite number as a whole number, and how many of them follow the
point. -/
def decimal? : Double → Option (Int × Nat)
  | finite significand exponent =>
    if 0 ≤ exponent then some (inUnits significand exponent 0, 0)
    else some (significand * Int.pow 5 (-exponent).toNat, (-exponent).toNat)
  | infinite _ => none

end Double
end Outline
