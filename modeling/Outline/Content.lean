import Outline.Link.Levels

/-!
What is known about pages outside the outline: their titles, whether they are published, and who may
see them.
-/
namespace Outline
set_option autoImplicit false

/-- What is known about one page. -/
structure ContentInfo where
  title : String
  published : Bool
  deriving DecidableEq

/-- What is known about pages, at most once for each. -/
structure Content where
  entries : List (PageId × ContentInfo)
  deriving DecidableEq

/-- Who looks: the pages that may be seen. -/
abbrev Viewer := PageId → Bool

namespace Viewer

/-- Someone who may see every page. -/
def everyone : Viewer := fun _ => true

/-- Someone who may see the given pages only. -/
def only (nids : List PageId) : Viewer := fun nid => nids.contains nid

/-- Someone who may see all but the given pages. -/
def allBut (nids : List PageId) : Viewer := fun nid => !nids.contains nid

end Viewer

namespace Content

/-- Nothing is known. -/
def empty : Content := ⟨[]⟩

/-- What is known about a page. -/
def info? (c : Content) (nid : PageId) : Option ContentInfo :=
  (c.entries.find? (·.1 == nid)).map (·.2)

/-- The content with news about a page in place of what was known. -/
def put (c : Content) (nid : PageId) (info : ContentInfo) : Content :=
  ⟨(nid, info) :: c.entries.filter (·.1 != nid)⟩

/-- The content of a list of news, of which the later ones count. -/
def ofList (news : List (PageId × ContentInfo)) : Content :=
  news.foldl (fun c (nid, info) => c.put nid info) empty

/-- The title of a page that is published and that the viewer may see. -/
def titleFor? (c : Content) (viewer : Viewer) (nid : PageId) : Option String :=
  (c.info? nid).bind fun info =>
    if info.published && viewer nid then some info.title else none

/-- What is known about those of the given pages that are known, in ascending order of ids. -/
def known (c : Content) (nids : List PageId) : List (PageId × ContentInfo) :=
  ((nids.mergeSort (· ≤ ·)).eraseReps).filterMap fun nid =>
    (c.info? nid).map fun info => (nid, info)

end Content
end Outline
