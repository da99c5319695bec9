import Outline.Text.Hexadecimal
import Outline.Text.Printable

/-!
Quoted texts for people: in double quotes, with what cannot be seen written by name or number.
-/
namespace Outline.Text
set_option autoImplicit false

/-- A character between quotes. The flag tells whether single quotes are marked too. -/
def quotedChar (single : Bool) (c : Char) : List Char :=
  if c = '\x5c' ∨ c = '\x22' ∨ (single ∧ c = '\x27') then ['\x5c', c]
  else if c = '\n' then ['\x5c', 'n']
  else if c = '\r' then ['\x5c', 'r']
  else if c = '\t' then ['\x5c', 't']
  else if c = '\x00' then ['\x5c', '0']
  else if isPrintable c then [c]
  else ['\x5c', 'u', '\x7b'] ++ Hexadecimal.chars c.toNat ++ ['\x7d']

/-- A text in quotes. -/
def quoted (s : String) : String :=
  String.ofList ('\x22' :: s.toList.flatMap (quotedChar false) ++ ['\x22'])

/-- A path in quotes. Single quotes are marked in it too. -/
def quotedPath (s : String) : String :=
  String.ofList ('\x22' :: s.toList.flatMap (quotedChar true) ++ ['\x22'])

end Outline.Text
