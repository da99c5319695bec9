import Outline.Json.Value

/-!
Lists and objects, element by element.

A loop over elements or members takes at least one byte in each round. The number of bytes is
therefore enough to bound it, and a loop that is cut short by the bound has run out of input.
-/
namespace Outline.Json
set_option autoImplicit false

/-- Whether another element comes, in a list whose bracket is open; the comma before it is dropped.
The flag tells whether it would be the first. The closing bracket is left in place. -/
def hasElement (first : Bool) : Reader Bool := do
  match ← peek with
  | none => throw .ended
  | some b =>
    if b = 0x5D then return false
    else if first then return true
    else if b = 0x2C then
      drop
      match ← peek with
      | none => throw .ended
      | some b => if b = 0x5D then throw .malformed else return true
    else throw .malformed

/-- The closing bracket of a list. -/
def closeList : Reader Unit := do
  match ← peek with
  | none => throw .ended
  | some b => if b = 0x5D then drop else throw .malformed

/-- The elements of a list that are left, and its closing bracket, in at most the given rounds. -/
def elements {α : Type} (element : Reader α) : Nat → Bool → Reader (List α)
  | 0, _ => throw .ended
  | rounds + 1, first => do
    if ← hasElement first then
      let a ← element
      return a :: (← elements element rounds false)
    else
      closeList
      return []

/-- A list, from its opening bracket on. -/
def listOf {α : Type} (element : Reader α) : Reader (List α) := do
  let b ← peekValue
  if b = 0x5B then drop; fun bs => elements element bs.length true bs else refuse

/-- Whether another member comes, in an object whose brace is open; the comma before its name is
dropped. The flag tells whether it would be the first. The closing brace is left in place. -/
def hasMember (first : Bool) : Reader Bool := do
  match ← peek with
  | none => throw .ended
  | some b =>
    if b = 0x7D then return false
    else if first then (if b = 0x22 then return true else throw .malformed)
    else if b = 0x2C then
      drop
      match ← peek with
      | none => throw .ended
      | some b => if b = 0x22 then return true else throw .malformed
    else throw .malformed

/-- The colon between a name and its value. -/
def colon : Reader Unit := do
  match ← peek with
  | none => throw .ended
  | some b => if b = 0x3A then drop else throw .malformed

/-- The members of an object that are left, and its closing brace, in at most the given rounds. What
the members say is gathered by `member`, which is given each name and reads what follows it. -/
def members {σ : Type} (member : String → σ → Reader σ) : Nat → Bool → σ → Reader σ
  | 0, _, _ => throw .ended
  | rounds + 1, first, gathered => do
    if ← hasMember first then
      drop
      let name ← quotedText
      members member rounds false (← member name gathered)
    else
      drop
      return gathered

/-- The members of an object after its opening brace. -/
def objectBody {σ : Type} (member : String → σ → Reader σ) (start : σ) : Reader σ := fun bs =>
  members member bs.length true start bs

/-- The value of a member that may come only once. -/
def once {α : Type} (seen : Option α) (value : Reader α) : Reader (Option α) := do
  if seen.isSome then throw .unsuitable
  colon
  return some (← value)

/-- The next element of a list that has to have one. -/
def nextElement {α : Type} (first : Bool) (element : Reader α) : Reader α := do
  if ← hasElement first then element else throw .unsuitable

end Outline.Json
