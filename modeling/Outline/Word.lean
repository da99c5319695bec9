/-!
The least and the greatest whole numbers of fixed widths.
-/
namespace Outline.Word
set_option autoImplicit false

/-- The least number of 32 bits with a sign. -/
def min32 : Int := -0x80000000

/-- The greatest number of 32 bits with a sign. -/
def max32 : Int := 0x7FFFFFFF

/-- The least number of 64 bits with a sign. -/
def min64 : Int := -0x8000000000000000

/-- The greatest number of 64 bits with a sign. -/
def max64 : Int := 0x7FFFFFFFFFFFFFFF

/-- The greatest number of 32 bits without a sign. -/
def maxUnsigned32 : Nat := 0xFFFFFFFF

/-- The greatest number of 64 bits without a sign. -/
def maxUnsigned64 : Nat := 0xFFFFFFFFFFFFFFFF

/-- Whether a number fits into 32 bits with a sign. -/
def fits32 (i : Int) : Bool := decide (min32 ≤ i) && decide (i ≤ max32)

/-- Whether a number fits into 64 bits with a sign. -/
def fits64 (i : Int) : Bool := decide (min64 ≤ i) && decide (i ≤ max64)

end Outline.Word
