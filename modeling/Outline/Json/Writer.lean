import Outline.Text.Decimal
import Outline.Text.Hexadecimal
import Outline.Text.Utf8

/-!
Writing JSON without blanks.

In a text only quotes, backslashes and the control bytes below the space are escaped; all other
bytes stand for themselves.
-/
namespace Outline.Json
set_option autoImplicit false

/-- The byte of a hexadecimal digit. -/
def hexByte (d : Nat) : UInt8 := (Hexadecimal.digit d).val.toUInt8

/-- A byte of a text, escaped where it has to be. -/
def escapeByte (b : UInt8) : Bytes :=
  if b = 0x22 then [0x5C, 0x22]
  else if b = 0x5C then [0x5C, 0x5C]
  else if b = 0x08 then [0x5C, 0x62]
  else if b = 0x09 then [0x5C, 0x74]
  else if b = 0x0A then [0x5C, 0x6E]
  else if b = 0x0C then [0x5C, 0x66]
  else if b = 0x0D then [0x5C, 0x72]
  else if b < 0x20 then [0x5C, 0x75, 0x30, 0x30, hexByte (b.toNat / 16), hexByte (b.toNat % 16)]
  else [b]

/-- A text in quotes. -/
def writeText (s : String) : Bytes := 0x22 :: (Text.utf8 s).flatMap escapeByte ++ [0x22]

/-- A whole number. -/
def writeInt (i : Int) : Bytes := (Decimal.chars i).map fun c => c.val.toUInt8

/-- A truth value. -/
def writeTruth (b : Bool) : Bytes := Text.utf8 (if b then "true" else "false")

/-- Values with commas between them. -/
def separated : List Bytes → Bytes
  | [] => []
  | [v] => v
  | v :: vs => v ++ 0x2C :: separated vs

/-- A list. -/
def writeList (vs : List Bytes) : Bytes := 0x5B :: separated vs ++ [0x5D]

/-- A member of an object. -/
def writeMember (name : String) (value : Bytes) : Bytes := writeText name ++ 0x3A :: value

/-- An object. -/
def writeObject (members : List Bytes) : Bytes := 0x7B :: separated members ++ [0x7D]

end Outline.Json
