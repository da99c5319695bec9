import Outline.Store.Extended

/-!
Texts that spell out a number.

Such a text has digits, with a sign, a point and an exponent if need be, and blanks around them. Of
the digits as many are kept as fit into 64 bits with one to spare. The digits that follow before the
point only shift the exponent, and those that follow after it are passed over.
-/
namespace Outline
set_option autoImplicit false

/-- A number as it is spelled out. -/
structure Numeral where
  negative : Bool
  whole : List Char
  fraction : Option (List Char)
  exponent : Option Int
  deriving DecidableEq

namespace Numeral

/-- Whether a character may stand around a number. -/
def isGap (c : Char) : Bool := c == ' ' || ('\x09' ≤ c && c ≤ '\x0d')

/-- A text without the gaps at its two ends. -/
def withoutGaps (cs : List Char) : List Char :=
  ((cs.dropWhile isGap).reverse.dropWhile isGap).reverse

/-- The value of a digit. -/
def digitValue (c : Char) : Nat := c.toNat - 48

/-- The value of digits. -/
def digitsValue (cs : List Char) : Nat := cs.foldl (fun n c => n * 10 + digitValue c) 0

/-- A sign, true for minus, and what follows it. -/
def sign : List Char → Bool × List Char
  | '-' :: rest => (true, rest)
  | '+' :: rest => (false, rest)
  | cs => (false, cs)

/-- Where the digits of an exponent stop to count. -/
def exponentLimit : Nat := 10000

/-- The value of the digits of an exponent, which is cut when it grows too large. -/
def exponentDigits (cs : List Char) : Nat :=
  cs.foldl (fun n c => if n < exponentLimit then n * 10 + digitValue c else exponentLimit) 0

/-- The exponent that a text is, if it is one. -/
def exponent? (cs : List Char) : Option Int :=
  let (negative, digits) := sign cs
  if digits.isEmpty || !digits.all Char.isDigit then none
  else some (Double.signed negative (exponentDigits digits))

/-- The exponent, if there is one, after the digits of a number. Nothing else may follow them. -/
def exponentPart : List Char → Option (Option Int)
  | [] => some none
  | c :: rest => if c = 'e' ∨ c = 'E' then (exponent? rest).map some else none

/-- The number that a text without gaps spells out. -/
def read? (cs : List Char) : Option Numeral :=
  let (negative, cs) := sign cs
  let whole := cs.takeWhile Char.isDigit
  let (fraction, rest) := match cs.dropWhile Char.isDigit with
    | '.' :: rest => (some (rest.takeWhile Char.isDigit), rest.dropWhile Char.isDigit)
    | rest => (none, rest)
  if (whole ++ fraction.getD []).isEmpty then none
  else (exponentPart rest).map fun exponent => ⟨negative, whole, fraction, exponent⟩

/-- The number that a text spells out. -/
def ofText? (s : String) : Option Numeral := read? (withoutGaps s.toList)

/-- The whole number that is spelled out in digits alone. -/
def whole? (n : Numeral) : Option Int :=
  if n.fraction.isNone && n.exponent.isNone then
    some (Double.signed n.negative (digitsValue n.whole))
  else none

/-- The least significand that takes no further digit. -/
def fullSignificand : Nat := (Word.maxUnsigned64 - 9) / 10

/-- The least significand that is not raised by another digit. -/
def roomySignificand : Nat := (Word.maxUnsigned64 - 0x7FF) / 10

/-- A significand with the leading ones of some digits, and how many of them were taken. -/
def takeDigits (significand taken : Nat) : List Char → Nat × Nat
  | [] => (significand, taken)
  | c :: cs =>
    if fullSignificand ≤ significand then (significand, taken)
    else takeDigits (significand * 10 + digitValue c) (taken + 1) cs

/-- A significand with as many digits of its exponent as it has room for. -/
def raise (significand : Nat) : Nat → Nat × Nat
  | 0 => (significand, 0)
  | n + 1 =>
    if significand < roomySignificand then raise (significand * 10) n else (significand, n + 1)

/-- A significand without zeros at its end, as far as its exponent makes up for them. -/
def lower (significand : Nat) : Nat → Nat × Nat
  | 0 => (significand, 0)
  | n + 1 => if significand % 10 = 0 then lower (significand / 10) n else (significand, n + 1)

/-- A significand times a power of ten, the exponent of which is kept small first. -/
def balanced (significand : Nat) (exponent : Int) : Nat × Int :=
  if 0 ≤ exponent then
    let (significand, rest) := raise significand exponent.toNat
    (significand, rest)
  else
    let (significand, rest) := lower significand (-exponent).toNat
    (significand, -(rest : Int))

/-- The number of double precision that is spelled out. -/
def toDouble (n : Numeral) : Double :=
  let (head, inWhole) := takeDigits 0 0 n.whole
  let (significand, inFraction) := takeDigits head 0 (n.fraction.getD [])
  let shift : Int := (n.whole.length : Int) - inWhole - inFraction
  if significand = 0 then .finite 0 0
  else
    let (significand, exponent) := balanced significand (n.exponent.getD 0 + shift)
    if exponent = 0 then Double.ofFraction n.negative significand 1
    else ((Extended.ofFraction significand 1).scaleByTen exponent).toDouble n.negative

end Numeral
end Outline
