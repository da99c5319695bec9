/-!
The release of this library, which is told at the start of a log and of the command line's output.
-/
namespace Outline
set_option autoImplicit false

/-- The number of the release. -/
def release : String := "0.1.0"

end Outline
