/-!
Nine levels, and one value for each of them.

A page lies at a level between one and nine. `Levels α` holds one value per level and knows its own
length; a `Chain` is the case of page ids, where zero stands for "no page at this level".
-/
namespace Outline
set_option autoImplicit false

/-- Pages are known by 64-bit numbers; zero names no page. -/
abbrev PageId := Int64

/-- The deepest level a page can lie at. -/
def maxDepth : Nat := 9

/-- One value for each level, from the first to the ninth. -/
structure Levels (α : Type) where
  toList : List α
  length_toList : toList.length = maxDepth
  deriving DecidableEq

namespace Levels

variable {α β : Type}

@[ext] theorem ext {a b : Levels α} (h : a.toList = b.toList) : a = b := by
  cases a; cases b; cases h; rfl

/-- The values of a list in order, cut after the ninth; missing ones are filled in. -/
def ofList (fill : α) (xs : List α) : Levels α where
  toList := (xs ++ List.replicate maxDepth fill).take maxDepth
  length_toList := by
    rw [List.length_take, List.length_append, List.length_replicate]
    omega

/-- Each value through `f`. -/
def map (f : α → β) (a : Levels α) : Levels β where
  toList := a.toList.map f
  length_toList := by simp [a.length_toList]

@[simp] theorem toList_map (f : α → β) (a : Levels α) : (a.map f).toList = a.toList.map f := rfl

theorem toList_ofList (fill : α) (xs : List α) :
    (ofList fill xs).toList = (xs ++ List.replicate maxDepth fill).take maxDepth := rfl

/-- A full list is kept as it is. -/
theorem ofList_toList (fill : α) (a : Levels α) : ofList fill a.toList = a := by
  ext1
  rw [toList_ofList, List.take_append_of_le_length (Nat.le_of_eq a.length_toList.symm),
    List.take_of_length_le (Nat.le_of_eq a.length_toList)]

end Levels

/-- The ids from the book root down to a page, one per level, zero below the page. -/
abbrev Chain := Levels PageId

/-- The chain that starts with the given ids. -/
def Chain.ofList (ids : List PageId) : Chain := Levels.ofList 0 ids

/-- The chain of a page whose ancestor has moved: the ancestor's new path, then what stood below the
ancestor's old depth. What does not fit into nine levels is lost. -/
def Chain.rebase (path : List PageId) (oldDepth : Nat) (c : Chain) : Chain :=
  Chain.ofList (path ++ c.toList.drop oldDepth)

end Outline
