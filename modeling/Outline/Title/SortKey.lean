import Outline.Text.Blank
import Outline.Text.Lowercase

/-!
How titles are compared: without regard to case, and with blanks counting only as gaps between
words.
-/
namespace Outline.Title
set_option autoImplicit false

open Outline.Text

/-- A title with its gaps made even: no blanks at the ends, one space for each run inside. -/
def evenGaps (title : String) : List Char := joinBlanks false (trim title.toList)

/-- The text by which titles are ordered. -/
def sortKey (title : String) : String := String.ofList (lowercase (evenGaps title))

end Outline.Title
