/-!
Numbers in decimal digits, without leading zeros, and with a minus sign when negative.
-/
namespace Outline.Decimal
set_option autoImplicit false

/-- The decimal digits of a number, the highest first. -/
def digits (n : Nat) : List Nat :=
  if n < 10 then [n] else digits (n / 10) ++ [n % 10]
  termination_by n
  decreasing_by omega

/-- The number with the given decimal digits. -/
def value (ds : List Nat) : Nat := ds.foldl (fun n d => n * 10 + d) 0

theorem value_digits (n : Nat) : value (digits n) = n := by
  fun_induction digits n with
  | case1 n h => simp [value]
  | case2 n h ih =>
    simp only [value, List.foldl_append, List.foldl_cons, List.foldl_nil] at ih ⊢
    rw [ih]
    omega

/-- The character of a digit. -/
def digitChar (d : Nat) : Char := Char.ofNat (48 + d)

/-- The characters of a whole number. -/
def chars : Int → List Char
  | .ofNat n => (digits n).map digitChar
  | .negSucc n => '-' :: (digits (n + 1)).map digitChar

/-- The text of a whole number. -/
def text (i : Int) : String := String.ofList (chars i)

end Outline.Decimal
