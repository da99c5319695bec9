import Outline.Forest.Item

/-!
The loop over a worklist and the recursion over a forest read the same items in the same order.

What a worklist still has to show is what its trees hold, tree by tree. A round of the loop shows
the first of it and leaves the others, in whatever state the worklist is.
-/
namespace Outline
set_option autoImplicit false

namespace Forest

variable {α : Type}

/-- The items that a worklist has yet to show: those of its trees, each tree in preorder. -/
def pending (work : List (α × Forest α)) : List α :=
  work.flatMap fun tree => tree.1 :: tree.2.preorder

theorem pending_append (work more : List (α × Forest α)) :
    pending (work ++ more) = pending work ++ pending more :=
  List.flatMap_append

/-- The trees of a forest have the whole forest to show. -/
theorem pending_trees (f : Forest α) : pending f.trees = f.preorder := by
  induction f with
  | nil => rfl
  | cons item below rest _ ih =>
    rw [trees, pending, List.flatMap_cons, ← pending, ih, preorder, List.cons_append]

/-- A round takes off the item that comes first, and leaves the others to show. -/
theorem pending_cons (item : α) (below : Forest α) (work : List (α × Forest α)) :
    pending ((item, below) :: work) = item :: pending (below.trees ++ work) := by
  rw [pending_append, pending_trees, pending, List.flatMap_cons, List.cons_append, ← pending]

/-- From any worklist, the loop shows what is pending. -/
theorem visit_eq_pending (work : List (α × Forest α)) : visit work = pending work := by
  induction work using visit.induct with
  | case1 => rw [visit, pending, List.flatMap_nil]
  | case2 item below work ih => rw [visit, ih, pending_cons]

end Forest

namespace BookForest

/-- The ids that the loop finds are those of the links that the recursion finds, for a forest of any
shape. -/
theorem pageIds_eq_links (f : BookForest) : f.pageIds = f.links.map Link.nid := by
  rw [pageIds, Forest.visit_eq_pending, Forest.pending_trees, links, List.map_map]
  rfl

end BookForest
end Outline
