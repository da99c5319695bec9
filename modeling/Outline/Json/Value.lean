import Outline.Json.Number
import Outline.Json.Quoted

/-!
Values of a wanted kind.

Where a value of another kind comes instead, it is first read to its end if it is a word, a number
or a text, so that a fault inside it is the one reported; a list or an object is refused at its
bracket.
-/
namespace Outline.Json
set_option autoImplicit false

/-- The next byte of a value, which has to be there. -/
def peekValue : Reader UInt8 := do
  match ← peek with
  | some b => return b
  | none => throw .ended

/-- Refuses the value that comes next, whatever its kind. -/
def refuse {α : Type} : Reader α := do
  let b ← peekValue
  if b = 0x6E then drop; expect [0x75, 0x6C, 0x6C]; throw .unsuitable
  else if b = 0x74 then drop; expect [0x72, 0x75, 0x65]; throw .unsuitable
  else if b = 0x66 then drop; expect [0x61, 0x6C, 0x73, 0x65]; throw .unsuitable
  else if b = 0x2D then drop; let _ ← number true; throw .unsuitable
  else if isDigit b then let _ ← number false; throw .unsuitable
  else if b = 0x22 then drop; let _ ← quotedText; throw .unsuitable
  else if b = 0x5B ∨ b = 0x7B then throw .unsuitable
  else throw .malformed

/-- A text. -/
def text : Reader String := do
  let b ← peekValue
  if b = 0x22 then drop; quotedText else refuse

/-- A text, or nothing for `null`. -/
def optionalText : Reader (Option String) := do
  match ← peek with
  | some 0x6E => drop; expect [0x75, 0x6C, 0x6C]; return none
  | _ => return some (← text)

/-- A truth value. -/
def truth : Reader Bool := do
  let b ← peekValue
  if b = 0x74 then drop; expect [0x72, 0x75, 0x65]; return true
  else if b = 0x66 then drop; expect [0x61, 0x6C, 0x73, 0x65]; return false
  else refuse

/-- A whole number between two bounds. -/
def integer (least most : Int) : Reader Int := do
  let b ← peekValue
  let n ← (if b = 0x2D then drop *> number true
    else if isDigit b then number false
    else refuse)
  match n with
  | .whole i => if least ≤ i ∧ i ≤ most then return i else throw .unsuitable
  | .other => throw .unsuitable

end Outline.Json
