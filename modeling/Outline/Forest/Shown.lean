import Outline.Forest.Item

/-!
Forests as they are displayed: each item with its place among its siblings and whether it is open.
-/
namespace Outline
set_option autoImplicit false

/-- Whether a page's children are shown below it, hidden, or absent. -/
inductive Openness where
  | expanded
  | collapsed
  | leaf
  deriving DecidableEq

/-- A page as it is displayed. -/
structure ShownItem where
  nid : PageId
  bid : PageId
  title : String
  first : Bool
  last : Bool
  openness : Openness
  active : Bool
  deriving DecidableEq

/-- The openness of a page, from its flag and from whether anything is below it. -/
def Openness.of (hasChildren isEmpty : Bool) : Openness :=
  match hasChildren, isEmpty with
  | true, false => .expanded
  | true, true => .collapsed
  | false, _ => .leaf

namespace BookForest

/-- The items as displayed, the flag telling whether the first of them is the first sibling. -/
def shownFrom : Bool → BookForest → Forest ShownItem
  | _, .nil => .nil
  | first, .cons item below rest =>
    .cons
      { nid := item.link.nid
        bid := item.link.bid
        title := item.title.getD ""
        first := first
        last := rest.isEmpty
        openness := .of item.link.hasChildren below.isEmpty
        active := item.active }
      (shownFrom true below) (shownFrom false rest)

/-- The items of a forest as displayed. -/
def shown (f : BookForest) : Forest ShownItem := shownFrom true f

end BookForest
end Outline
