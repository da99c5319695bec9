import Outline.Text.Utf8

/-!
Reading JSON from bytes, from left to right, up to the first fault.

A reader takes what it needs from the front of the input and leaves the rest. The three kinds of
fault are kept apart because callers tell them apart: the input ended, it is not JSON, or it is JSON
but not of the kind that is wanted.
-/
namespace Outline.Json
set_option autoImplicit false

/-- Why an input was refused. -/
inductive Fault where
  | ended
  | malformed
  | unsuitable
  deriving DecidableEq

/-- A reader of values of a type. -/
abbrev Reader (α : Type) := StateT Bytes (Except Fault) α

/-- The blanks that may stand between tokens: space, line feed, carriage return and tab. -/
def isBlank (b : UInt8) : Bool := b == 0x20 || b == 0x0A || b == 0x0D || b == 0x09

/-- The next byte that is not a blank, left in place; the blanks before it are dropped. -/
def peek : Reader (Option UInt8) := fun bs =>
  let rest := bs.dropWhile isBlank
  .ok (rest.head?, rest)

/-- Drops one byte. -/
def drop : Reader Unit := fun bs => .ok ((), bs.drop 1)

/-- Drops the given bytes, which have to come next. -/
def expect : Bytes → Reader Unit
  | [], bs => .ok ((), bs)
  | _ :: _, [] => .error .ended
  | want :: wanted, b :: bs => if b = want then expect wanted bs else .error .malformed

/-- Reads a whole input with a reader; only blanks may follow the value. -/
def readAll {α : Type} (r : Reader α) (input : Bytes) : Except Fault α :=
  match r input with
  | .error fault => .error fault
  | .ok (a, rest) => if rest.all isBlank then .ok a else .error .malformed

end Outline.Json
