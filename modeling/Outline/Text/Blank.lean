import Outline.Text.Ranges

/-!
Blanks: the characters with the property White_Space, and the two ways in which texts lose them.
-/
namespace Outline.Text
set_option autoImplicit false

/-- The code points of blanks, in ascending order. -/
def blankRanges : List (Nat × Nat) :=
  [(0x9, 0xD), (0x20, 0x20), (0x85, 0x85), (0xA0, 0xA0), (0x1680, 0x1680), (0x2000, 0x200A),
   (0x2028, 0x2029), (0x202F, 0x202F), (0x205F, 0x205F), (0x3000, 0x3000)]

/-- Whether a character is a blank. -/
def isBlank (c : Char) : Bool := inRanges blankRanges c.toNat

/-- A text without the blanks at its end. -/
def dropBlankEnd (cs : List Char) : List Char := (cs.reverse.dropWhile isBlank).reverse

/-- A text without the blanks at its two ends. -/
def trim (cs : List Char) : List Char := dropBlankEnd (cs.dropWhile isBlank)

/-- A text in which every run of blanks is one space. The flag tells whether the character before
was a blank, whose run has then been written already. -/
def joinBlanks : Bool → List Char → List Char
  | _, [] => []
  | inRun, c :: cs =>
    if isBlank c then (if inRun then joinBlanks true cs else ' ' :: joinBlanks true cs)
    else c :: joinBlanks false cs

end Outline.Text
