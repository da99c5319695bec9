import Outline.Text.Blank
import Outline.Text.Punctuation

/-!
Titles cut to a width, at a word's end where one fits.
-/
namespace Outline.Title
set_option autoImplicit false

open Outline.Text

/-- The mark of a cut title. -/
def ellipsis : Char := '…'

/-- Whether a title may be cut before a character. -/
def isBoundary (c : Char) : Bool := isBlank c || isPunctuation c

/-- The last position, counted from `start`, at which a boundary stands. -/
def lastBoundaryFrom : Nat → List Char → Option Nat
  | _, [] => none
  | start, c :: cs =>
    (lastBoundaryFrom (start + 1) cs).or (if isBoundary c then some start else none)

/-- Where to cut a window of `keep + 1` characters: before the last boundary after the first
character, and else after `keep` characters. -/
def cutPoint (keep : Nat) (window : List Char) : Nat :=
  (lastBoundaryFrom 1 (window.drop 1)).getD keep

/-- The characters of a title cut to a width, the ellipsis included. The window holds one character
more than is kept, so that a word ending right at the cut stays whole. -/
def shortenChars (title : List Char) (width : Nat) : List Char :=
  if title.length ≤ width then title
  else
    let keep := width - 1
    let window := title.take (keep + 1)
    dropBlankEnd (window.take (cutPoint keep window)) ++ [ellipsis]

/-- A title of at most `width` characters; a title that fits is kept as it is. -/
def shorten (title : String) (width : Nat) : String :=
  String.ofList (shortenChars title.toList width)

end Outline.Title
