import Outline.Forest.Basic
import Outline.Link.Basic

/-!
The forest of a book: pages with their links, below the pages they belong to.
-/
namespace Outline
set_option autoImplicit false

/-- A page in a forest. Its title is known only once the forest has been made ready for a viewer;
`active` marks the page in focus and the pages above it. -/
structure Item where
  link : Link
  title : Option String
  active : Bool
  deriving DecidableEq

/-- The pages of one or more books, nested. -/
abbrev BookForest := Forest Item

namespace BookForest

/-- The links of all pages, each before those below it. -/
def links (f : BookForest) : List Link := f.preorder.map Item.link

/-- The ids of all pages, found by a worklist, each before those below it. -/
def pageIds (f : BookForest) : List PageId := (Forest.visit f.trees).map (·.link.nid)

end BookForest
end Outline
