import Outline.Store.Double

/-!
Numbers with eleven binary digits to spare, in which powers of ten are multiplied.

Every product is rounded to 64 binary digits, so after some products a number need not be the
nearest one. What comes out is rounded to double precision at the end.
-/
namespace Outline
set_option autoImplicit false

/-- A number of extended precision: a significand times a power of two. -/
structure Extended where
  significand : Nat
  exponent : Int
  deriving DecidableEq

namespace Extended

/-- The digits of a significand. -/
def precision : Nat := 64

/-- A positive fraction, rounded. -/
def ofFraction (num den : Nat) : Extended :=
  let exponent := Double.binaryLog num den - (precision - 1 : Nat)
  let (n, d) := Double.scaled num den (-exponent)
  ⟨Double.roundHalfEven n d, exponent⟩

/-- A number and a power of two as a fraction. -/
def toFraction (x : Extended) : Nat × Nat := Double.scaled x.significand 1 x.exponent

/-- The product of two numbers, rounded. -/
def mul (x y : Extended) : Extended :=
  let product := ofFraction (x.significand * y.significand) 1
  ⟨product.significand, product.exponent + x.exponent + y.exponent⟩

/-- The power of ten that an exponent stands for, rounded. -/
def tenTo (exponent : Int) : Extended :=
  if 0 ≤ exponent then ofFraction (Nat.pow 10 exponent.toNat) 1
  else ofFraction 1 (Nat.pow 10 (-exponent).toNat)

/-- A number times a factor, again and again. -/
def mulTimes (factor : Extended) : Nat → Extended → Extended
  | 0, x => x
  | n + 1, x => mulTimes factor n (x.mul factor)

/-- A number times a power of ten: first by hundreds of digits, then by tens, then one by one. -/
def scaleByTen (x : Extended) (exponent : Int) : Extended :=
  let n := exponent.natAbs
  let sign : Int := if exponent < 0 then -1 else 1
  mulTimes (tenTo sign) (n % 10)
    (mulTimes (tenTo (10 * sign)) (n % 100 / 10) (mulTimes (tenTo (100 * sign)) (n / 100) x))

/-- The greatest number that is not beyond double precision. -/
def greatest : Extended :=
  ⟨(Double.shifted 1 Double.precision - 1) * Double.shifted 1 (precision - Double.precision),
    Double.maxExponent - (precision - Double.precision : Nat)⟩

/-- Whether one number is greater than another. -/
def exceeds (x y : Extended) : Bool :=
  let unit := min x.exponent y.exponent
  decide (Double.inUnits y.significand y.exponent unit <
    Double.inUnits x.significand x.exponent unit)

/-- A number with a sign, in double precision. -/
def toDouble (negative : Bool) (x : Extended) : Double :=
  if x.exceeds greatest then .infinite negative
  else
    let (num, den) := x.toFraction
    Double.ofFraction negative num den

end Extended
end Outline
