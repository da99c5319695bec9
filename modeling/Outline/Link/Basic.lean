import Outline.Link.Levels

/-!
Links: where a page lies in a book.

A link is a record of what was stored or asked for. Nothing here assumes that its fields agree with
each other; `Outline.Link.Fault` says when they do.
-/
namespace Outline
set_option autoImplicit false

/-- A page's place: its book, its parent (zero for a book root), its order among its siblings, its
level, and the chain of its ancestors ending with itself. -/
structure Link where
  nid : PageId
  bid : PageId
  pid : PageId
  hasChildren : Bool
  weight : Int32
  depth : Nat
  chain : Chain
  deriving DecidableEq

namespace Link

/-- The link of a page that starts a book. -/
def root (nid : PageId) (weight : Int32) : Link where
  nid := nid
  bid := nid
  pid := 0
  hasChildren := false
  weight := weight
  depth := 1
  chain := Chain.ofList [nid]

/-- The ids from the book root down to the page itself. -/
def path (l : Link) : List PageId := l.chain.toList.take l.depth

/-- The id at a level counted from one, and zero outside the nine levels. -/
def atLevel (l : Link) : Nat → PageId
  | 0 => 0
  | level + 1 => (l.chain.toList[level]?).getD 0

/-- Whether the page starts its book. -/
def isBookRoot (l : Link) : Bool := l.nid == l.bid

/-- Whether an id is the page itself or one of the pages above it. -/
def isWithin (l : Link) (ancestor : PageId) : Bool := l.path.contains ancestor

/-- The parents whose children are shown around the page: zero for the top, then the pages of the
chain down to the eighth level. -/
def trail (l : Link) : List PageId :=
  0 :: (l.chain.toList.take (maxDepth - 1)).filter (· != 0)

end Link
end Outline
