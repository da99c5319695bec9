import Outline.Forest.Build
import Outline.Forest.Contents
import Outline.Forest.Sorted
import Outline.Forest.Visible
import Outline.Manager.Basic

/-!
Reading an outline.

Forests come from the cache or are built and then kept there, without titles and in the order of
their chains. Only then are they made ready for the viewer, so what one viewer sees leaves no trace
in what another sees. Pages that are missing or hidden make a forest smaller and are no faults.
-/
namespace Outline
set_option autoImplicit false

/-- A book in a list of books. -/
structure ListedBook where
  bid : PageId
  title : String
  link : Link
  deriving DecidableEq

/-- What books are ordered by. -/
def ListedBook.key (b : ListedBook) : SiblingKey :=
  ⟨b.link.weight, Title.sortKey b.title, b.bid⟩

namespace Manager

/-- The link of a page. -/
def link? (nid : PageId) : Managed (Option Link) := look (·.link? nid)

/-- The links of those of the given pages that have one, in ascending order of ids. -/
def links (nids : List PageId) (limit : Option Nat := none) : Managed (List Link) :=
  look (·.links nids limit)

/-- The books among the given ids that are placed, published and visible, in their order. -/
def visibleBooks (content : Content) (viewer : Viewer) (stored : List Link) (bids : List PageId) :
    List ListedBook :=
  (bids.filterMap fun bid => do
    let link ← stored.find? (·.nid == bid)
    let title ← content.titleFor? viewer bid
    return ⟨bid, title, link⟩).mergeSort fun a b => a.key.le b.key

/-- The books whose top page is published and visible. -/
def allBooks (viewer : Viewer) (limit : Option Nat := none) : Managed (List ListedBook) := do
  let bids ← look Table.bookIds
  let stored ← links bids limit
  return visibleBooks (← get).content viewer stored bids

/-- A forest made ready for a viewer: titles filled in, hidden pages left out, siblings in order. -/
def forViewer (content : Content) (viewer : Viewer) (f : BookForest) : BookForest :=
  (f.withTitles (content.titleFor? viewer)).sort

/-- The pages marked around a page in focus. -/
def activePages : Option Link → List PageId
  | none => []
  | some focus => focus.nid :: focus.trail

/-- The rows wanted for a book, a page in focus and a depth limit. -/
def bookQuery (bid : PageId) (focus : Option Link) (depthLimit : Option Nat) : Query :=
  let q := (Query.book bid).downTo depthLimit
  match focus with
  | none => q
  | some focus => q.under focus.trail

/-- A book's forest as it is kept: from the cache, or else built and put there. -/
def keptForest (bid : PageId) (focus : Option Link) (depthLimit : Option Nat) :
    Managed BookForest := do
  let m ← get
  let key := Cache.bookKey m.settings.locale bid ((focus.map Link.nid).getD 0) depthLimit
  let (found, event) := m.cache.forestAt key
  set (m.tell [event])
  match found with
  | some f => return f
  | none =>
    let rows ← look (·.select (bookQuery bid focus depthLimit))
    let f := BookForest.build (activePages focus).contains 1 rows
    modify fun m => { m with cache := m.cache.putForest key bid f }
    return f

/-- The forest of a book, along the trail of a page in focus if there is one. A page in focus
without a link makes the forest empty. -/
def bookForest (bid : PageId) (focus : Option PageId) (depthLimit : Option Nat) (viewer : Viewer) :
    Managed BookForest := do
  let content := (← get).content
  match focus with
  | none => return forViewer content viewer (← keptForest bid none depthLimit)
  | some nid =>
    match ← link? nid with
    | none => return .nil
    | some l => return forViewer content viewer (← keptForest bid (some l) depthLimit)

/-- The pages around a page: along its trail, and one level below it. -/
def pagesAround (nid : PageId) (viewer : Viewer) : Managed (List Link) := do
  match ← link? nid with
  | none => return []
  | some l =>
    let f ← keptForest l.bid (some l) (some (l.depth + 1))
    return (forViewer (← get).content viewer f).links

/-- The forest of a page and all below it, as it is kept. -/
def keptSubtree (l : Link) : Managed BookForest := do
  let m ← get
  let (found, events) := m.cache.subtreeOf m.settings.locale l.nid
  set (m.tell events)
  match found with
  | some f => return f
  | none =>
    let rows ← look (·.select ((Query.book l.bid).within l))
    let f := BookForest.build (fun _ => false) l.depth rows
    modify fun m => { m with cache := m.cache.putSubtree m.settings.locale l f }
    return f

/-- The forest of a page and all below it. -/
def subtree (nid : PageId) (viewer : Viewer) : Managed BookForest := do
  match ← link? nid with
  | none => return .nil
  | some l =>
    let f ← keptSubtree l
    return forViewer (← get).content viewer f

/-- The table of contents of a book. -/
def contents (bid : PageId) (depthLimit : Nat) (exclude : List PageId) (viewer : Viewer) :
    Managed (List ContentsLine) := do
  let f ← bookForest bid none none viewer
  return f.contents ⟨depthLimit, exclude, (← get).settings.titleWidth⟩

/-- The deepest level that a new parent of a page may lie at. -/
def deepestParent (l : Link) : Managed Nat := do
  let deepest ← (if l.hasChildren then look (·.maxDepthWithin l) else return l.depth)
  return maxDepth - 1 - (deepest - l.depth)

/-- Whether a page may be removed through the outline form: a book root only when it has no
children. -/
def mayRemove (l : Link) : Bool := !l.isBookRoot || !l.hasChildren

end Manager
end Outline
