import Outline.Json.Reader
import Outline.Word

/-!
Numbers.

A number without fraction and exponent that fits is whole; every other number is only told apart
from what is no number at all. Of the latter kind are also numbers beyond the range of double
precision. The digits kept of a long number are as many as fit into 64 bits, and the rest only shift
the exponent.
-/
namespace Outline.Json
set_option autoImplicit false

/-- Whether a byte is a decimal digit. -/
def isDigit (b : UInt8) : Bool := 0x30 ≤ b && b ≤ 0x39

/-- The value of a decimal digit. -/
def digitValue (b : UInt8) : Nat := b.toNat - 0x30

/-- The digits of a number as they were written: those before the point, those after it, and the
exponent with its sign. -/
structure Numeral where
  whole : Bytes
  fraction : Option Bytes
  exponent : Option (Bool × Bytes)
  deriving DecidableEq

/-- The fault at a place where a digit is missing. -/
def missingDigit : Bytes → Fault
  | [] => .ended
  | _ :: _ => .malformed

/-- Digits, at least one. -/
def someDigits (bs : Bytes) : Except Fault (Bytes × Bytes) :=
  if (bs.takeWhile isDigit).isEmpty then .error (missingDigit bs)
  else .ok (bs.takeWhile isDigit, bs.dropWhile isDigit)

/-- The digits before the point: a zero alone, or digits that do not start with zero. -/
def wholeDigits : Bytes → Except Fault (Bytes × Bytes)
  | [] => .error .ended
  | b :: bs =>
    if b = 0x30 then
      if (bs.head?.map isDigit).getD false then .error .malformed else .ok ([b], bs)
    else if isDigit b then .ok (b :: bs.takeWhile isDigit, bs.dropWhile isDigit)
    else .error .malformed

/-- The point and the digits after it, if a point comes next. -/
def fractionDigits : Bytes → Except Fault (Option Bytes × Bytes)
  | 0x2E :: bs => (someDigits bs).map fun (digits, rest) => (some digits, rest)
  | bs => .ok (none, bs)

/-- The sign and digits of an exponent, if one comes next. The flag is true for a negative one. -/
def exponentDigits : Bytes → Except Fault (Option (Bool × Bytes) × Bytes)
  | b :: bs =>
    if b = 0x65 ∨ b = 0x45 then
      match bs with
      | 0x2B :: rest => (someDigits rest).map fun (digits, rest) => (some (false, digits), rest)
      | 0x2D :: rest => (someDigits rest).map fun (digits, rest) => (some (true, digits), rest)
      | rest => (someDigits rest).map fun (digits, rest) => (some (false, digits), rest)
    else .ok (none, b :: bs)
  | [] => .ok (none, [])

/-- A number without its sign, as it was written. -/
def numeral : Reader Numeral := fun bs => do
  let (whole, bs) ← wholeDigits bs
  let (fraction, bs) ← fractionDigits bs
  let (exponent, bs) ← exponentDigits bs
  return (⟨whole, fraction, exponent⟩, bs)

/-- The leading digits that fit into 64 bits as a number, after those already taken, and how many
digits are left. -/
def leadingDigits : Nat → Bytes → Nat × Nat
  | taken, [] => (taken, 0)
  | taken, b :: bs =>
    if taken * 10 + digitValue b ≤ Word.maxUnsigned64 then
      leadingDigits (taken * 10 + digitValue b) bs
    else (taken, bs.length + 1)

/-- The value of digits. -/
def digitsValue (bs : Bytes) : Nat := bs.foldl (fun n b => n * 10 + digitValue b) 0

/-- The power of ten that an exponent asks for. -/
def exponentValue : Option (Bool × Bytes) → Int
  | none => 0
  | some (negative, digits) => if negative then -(digitsValue digits : Int) else digitsValue digits

/-- Two to a power. -/
def twoTo (exponent : Nat) : Nat := Nat.pow 2 exponent

/-- A natural number rounded to 53 binary digits, to even when it lies halfway. -/
def roundToDouble (n : Nat) : Nat :=
  let extra := n.log2 + 1 - 53
  let quotient := n / twoTo extra
  let twice := 2 * (n % twoTo extra)
  let up := decide (twoTo extra < twice) || (twice == twoTo extra && quotient % 2 == 1)
  (if extra == 0 then n else (if up then quotient + 1 else quotient) * twoTo extra)

/-- Whether a significand times a power of ten lies beyond double precision, both factors being
rounded before they are multiplied. The limit is half a unit above the largest finite number. -/
def isBeyondDouble (significand : Nat) (exponent : Int) : Bool :=
  significand != 0 && decide (0 ≤ exponent) &&
    (decide (308 < exponent) ||
      decide (twoTo 1024 - twoTo 970 ≤
        roundToDouble significand * roundToDouble (Nat.pow 10 exponent.toNat)))

/-- Whether a numeral lies beyond double precision. -/
def Numeral.isTooLarge (n : Numeral) : Bool :=
  let (head, shifted) := leadingDigits 0 n.whole
  let fraction := n.fraction.getD []
  let (significand, unused) := leadingDigits head fraction
  isBeyondDouble significand (shifted - (fraction.length - unused : Nat) + exponentValue n.exponent)

/-- Whether a numeral is whole and fits into 64 bits. -/
def Numeral.whole? (n : Numeral) : Option Nat :=
  if n.fraction.isNone && n.exponent.isNone &&
      decide (digitsValue n.whole ≤ Word.maxUnsigned64) then
    some (digitsValue n.whole)
  else none

/-- The values that numbers are read as. -/
inductive Number where
  | whole (i : Int)
  | other
  deriving DecidableEq

/-- The value of a numeral with its sign. A negative number that is zero or does not fit into 64
bits with a sign is not whole. -/
def Numeral.value (negative : Bool) (n : Numeral) : Number :=
  match n.whole? with
  | none => .other
  | some k =>
    if !negative then .whole k
    else if 0 < k ∧ Word.fits64 (-(k : Int)) then .whole (-(k : Int))
    else .other

/-- A number after its sign. -/
def number (negative : Bool) : Reader Number := do
  let n ← numeral
  if n.value negative = .other ∧ n.isTooLarge then throw .malformed
  return n.value negative

end Outline.Json
