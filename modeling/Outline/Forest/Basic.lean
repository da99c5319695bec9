/-!
Forests: lists of trees in which each item may have a forest below it.

A forest is empty, or a first item with the forest below it and the siblings that follow. Reading it
in preorder is defined twice: by recursion over the forest, and by a loop that keeps a worklist of
the trees still to visit.
-/
namespace Outline
set_option autoImplicit false

/-- Items in order, each with a forest below it. -/
inductive Forest (α : Type) where
  | nil
  | cons (item : α) (below : Forest α) (rest : Forest α)
  deriving DecidableEq

namespace Forest

variable {α β : Type}

/-- Whether there is no item. -/
def isEmpty : Forest α → Bool
  | nil => true
  | cons _ _ _ => false

/-- The items at the top level. -/
def tops : Forest α → List α
  | nil => []
  | cons item _ rest => item :: tops rest

/-- All items, each before those below it. -/
def preorder : Forest α → List α
  | nil => []
  | cons item below rest => item :: (preorder below ++ preorder rest)

/-- The trees of a forest, each an item with what lies below it. -/
def trees : Forest α → List (α × Forest α)
  | nil => []
  | cons item below rest => (item, below) :: trees rest

/-- The forest made of the given trees. -/
def ofTrees : List (α × Forest α) → Forest α
  | [] => nil
  | (item, below) :: rest => cons item below (ofTrees rest)

@[simp] theorem ofTrees_trees (f : Forest α) : ofTrees f.trees = f := by
  induction f with
  | nil => rfl
  | cons item below rest _ ih => simp [trees, ofTrees, ih]

@[simp] theorem trees_ofTrees (ts : List (α × Forest α)) : (ofTrees ts).trees = ts := by
  induction ts with
  | nil => rfl
  | cons t ts ih => simp [trees, ofTrees, ih]

/-- The number of items. -/
def size : Forest α → Nat
  | nil => 0
  | cons _ below rest => 1 + size below + size rest

/-- The number of levels. -/
def height : Forest α → Nat
  | nil => 0
  | cons _ below rest => max (height below + 1) (height rest)

/-- The number of items in a worklist of trees. -/
def workSize : List (α × Forest α) → Nat
  | [] => 0
  | tree :: work => 1 + tree.2.size + workSize work

theorem workSize_append (work more : List (α × Forest α)) :
    workSize (work ++ more) = workSize work + workSize more := by
  induction work with
  | nil => simp [workSize]
  | cons tree work ih =>
    simp only [List.cons_append, workSize, ih]
    omega

theorem workSize_trees (f : Forest α) : workSize f.trees = f.size := by
  induction f with
  | nil => rfl
  | cons item below rest _ ih => simp only [trees, workSize, size, ih]

/-- All items by a loop: the first tree of the worklist is taken off, and the trees below its item
are put in front of the others. -/
def visit : List (α × Forest α) → List α
  | [] => []
  | (item, below) :: work => item :: visit (below.trees ++ work)
  termination_by work => workSize work
  decreasing_by
    rw [workSize_append, workSize_trees]
    simp only [workSize]
    omega

/-- The leading trees whose items satisfy `p`. -/
def takeWhile (p : α → Bool) : Forest α → Forest α
  | nil => nil
  | cons item below rest => if p item then cons item below (takeWhile p rest) else nil

/-- What follows the leading trees whose items satisfy `p`. -/
def dropWhile (p : α → Bool) : Forest α → Forest α
  | nil => nil
  | cons item below rest => if p item then dropWhile p rest else cons item below rest

end Forest
end Outline
