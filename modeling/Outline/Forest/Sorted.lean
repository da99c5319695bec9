import Outline.Forest.Item
import Outline.Title.SortKey

/-!
Siblings in order: by weight, then by title, then by id.
-/
namespace Outline
set_option autoImplicit false

/-- What siblings are ordered by. The title is in the form that ignores case and even gaps. -/
structure SiblingKey where
  weight : Int32
  title : String
  nid : PageId
  deriving DecidableEq

namespace SiblingKey

/-- The order of weights, then of titles by code points, then of ids. -/
def le (a b : SiblingKey) : Bool :=
  a.weight < b.weight ||
    (a.weight == b.weight && (a.title < b.title || (a.title == b.title && a.nid ≤ b.nid)))

end SiblingKey

/-- The key of an item; a missing title counts as empty. -/
def Item.key (item : Item) : SiblingKey :=
  ⟨item.link.weight, Title.sortKey (item.title.getD ""), item.link.nid⟩

namespace BookForest

/-- Trees in the order of their items' keys; equal keys keep their order. -/
def sortTrees (ts : List (Item × BookForest)) : List (Item × BookForest) :=
  ts.mergeSort fun a b => a.1.key.le b.1.key

/-- The forest with every list of siblings below the top level in order. -/
def sortBelow : BookForest → BookForest
  | .nil => .nil
  | .cons item below rest =>
    .cons item (Forest.ofTrees (sortTrees (sortBelow below).trees)) (sortBelow rest)

/-- The forest with every list of siblings in order. -/
def sort (f : BookForest) : BookForest := Forest.ofTrees (sortTrees (sortBelow f).trees)

end BookForest
end Outline
