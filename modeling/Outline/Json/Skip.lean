import Outline.Json.Container

/-!
Passing over a value that is not wanted.

The open brackets and braces are kept in a list, so nesting has no limit here, and of texts and
numbers only the shape is looked at.
-/
namespace Outline.Json
set_option autoImplicit false

/-- An open bracket or brace. -/
inductive Opened where
  | list
  | object
  deriving DecidableEq

/-- What may come next: a value, a name, or what follows a value. -/
inductive Expecting where
  | value
  | name
  | separator
  deriving DecidableEq

/-- Passes over a word, a number or a text. -/
def skipScalar (b : UInt8) : Reader Unit := do
  if b = 0x6E then drop; expect [0x75, 0x6C, 0x6C]
  else if b = 0x74 then drop; expect [0x72, 0x75, 0x65]
  else if b = 0x66 then drop; expect [0x61, 0x6C, 0x73, 0x65]
  else if b = 0x2D then drop; let _ ← numeral
  else if isDigit b then let _ ← numeral
  else if b = 0x22 then drop; skipQuoted
  else throw .malformed

/-- One step: what comes next, and the brackets and braces that are then open. -/
def skipStep : Expecting → List Opened → Reader (Expecting × List Opened)
  | .value, opened => do
    let b ← peekValue
    if b = 0x5B then
      drop
      if (← peekValue) = 0x5D then drop; return (.separator, opened)
      else return (.value, .list :: opened)
    else if b = 0x7B then
      drop
      if (← peekValue) = 0x7D then drop; return (.separator, opened)
      else return (.name, .object :: opened)
    else
      skipScalar b
      return (.separator, opened)
  | .name, opened => do
    if (← peekValue) = 0x22 then
      drop
      skipQuoted
      colon
      return (.value, opened)
    else throw .malformed
  | .separator, [] => return (.separator, [])
  | .separator, .list :: opened => do
    let b ← peekValue
    if b = 0x2C then drop; return (.value, .list :: opened)
    else if b = 0x5D then drop; return (.separator, opened)
    else throw .malformed
  | .separator, .object :: opened => do
    let b ← peekValue
    if b = 0x2C then drop; return (.name, .object :: opened)
    else if b = 0x7D then drop; return (.separator, opened)
    else throw .malformed

/-- Steps until nothing is open after a value, in at most the given rounds. -/
def skipFrom : Nat → Expecting → List Opened → Reader Unit
  | 0, _, _ => throw .ended
  | rounds + 1, expecting, opened => do
    let (expecting, opened) ← skipStep expecting opened
    if expecting = .separator ∧ opened = [] then return ()
    else skipFrom rounds expecting opened

/-- Passes over one value. Every step takes at least one byte. -/
def skipValue : Reader Unit := fun bs => skipFrom (bs.length + 1) .value [] bs

end Outline.Json
