import Outline.Forest.Item
import Outline.Title.Shorten

/-!
The table of contents of a forest, one line per page.
-/
namespace Outline
set_option autoImplicit false

/-- A line of a table of contents. -/
structure ContentsLine where
  nid : PageId
  label : String
  deriving DecidableEq

/-- What a table of contents is to show: how deep it goes, which pages it leaves out with all that
is below them, and how wide a title may be. -/
structure ContentsScope where
  depthLimit : Nat
  exclude : List PageId
  width : Nat

namespace BookForest

/-- The indentation added at each level. -/
def contentsIndent : String := "--"

/-- Whether a list of siblings reaches below the limit; it is then not shown at all. -/
def isTooDeep (scope : ContentsScope) (f : BookForest) : Bool :=
  f.tops.any (scope.depthLimit < ·.link.depth)

/-- The line of one page. -/
def contentsLine (scope : ContentsScope) (indent : String) (item : Item) : ContentsLine :=
  ⟨item.link.nid, indent ++ " " ++ Title.shorten (item.title.getD "") scope.width⟩

/-- The lines of siblings that are shown, and of what is below them. -/
def contentsLines (scope : ContentsScope) (indent : String) : BookForest → List ContentsLine
  | .nil => []
  | .cons item below rest =>
    (if scope.exclude.contains item.link.nid then []
    else
      contentsLine scope indent item ::
        (if isTooDeep scope below then []
        else contentsLines scope (indent ++ contentsIndent) below)) ++
      contentsLines scope indent rest

/-- The table of contents of a forest. -/
def contents (scope : ContentsScope) (f : BookForest) : List ContentsLine :=
  if isTooDeep scope f then [] else contentsLines scope "" f

end BookForest
end Outline
