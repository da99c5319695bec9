import Outline.Link.Basic

/-!
When the fields of a link contradict each other.

`Link.fault?` names the first contradiction: the id, the depth, the end of the chain, its padding,
and last the shape of the root. `Link.Valid` is the absence of one.
-/
namespace Outline
set_option autoImplicit false

/-- What can be wrong with a link, or with placing a page under another. -/
inductive Link.Fault where
  | invalidId (nid : PageId)
  | tooDeep (nid : PageId) (depth : Nat)
  | depthOutOfRange (nid : PageId) (depth : Nat)
  | wrongTail (nid : PageId) (found : PageId)
  | unpadded (nid : PageId) (level : Nat)
  | inconsistentRoot (nid : PageId)
  deriving DecidableEq

/-- The text of a link fault. -/
def Link.Fault.message : Link.Fault → String
  | .invalidId nid => s!"book link id must be positive, got {nid}"
  | .tooDeep nid depth =>
    s!"book link {nid} would be placed at depth {depth}, maximum is {maxDepth}"
  | .depthOutOfRange nid depth => s!"book link {nid} has out of range depth {depth}"
  | .wrongTail nid found => s!"book link {nid} has p(depth) = {found}"
  | .unpadded nid level => s!"book link {nid} has non-zero p{level} past its depth"
  | .inconsistentRoot nid => s!"book link {nid} has an inconsistent root shape"

namespace Link

/-- The first level below the page whose slot is not zero. -/
def unpaddedLevel? (l : Link) : Option Nat :=
  ((l.chain.toList.drop l.depth).findIdx? (· != 0)).map (l.depth + · + 1)

/-- Whether parent, depth, book and chain agree on which page is the root: exactly the pages at the
first level have no parent, they are their own book, and every other page belongs to the book that
its chain starts with. -/
def hasRootShape (l : Link) : Bool :=
  if l.pid == 0 then l.depth == 1 && l.bid == l.nid
  else l.depth != 1 && l.bid == l.atLevel 1

/-- The first fault of a link, if there is one. -/
def fault? (l : Link) : Option Fault :=
  if l.nid ≤ 0 then some (.invalidId l.nid)
  else if l.depth = 0 ∨ maxDepth < l.depth then some (.depthOutOfRange l.nid l.depth)
  else if l.atLevel l.depth ≠ l.nid then some (.wrongTail l.nid (l.atLevel l.depth))
  else match l.unpaddedLevel? with
    | some level => some (.unpadded l.nid level)
    | none => if l.hasRootShape then none else some (.inconsistentRoot l.nid)

/-- A link whose fields agree. -/
def Valid (l : Link) : Prop := l.fault? = none

instance (l : Link) : Decidable l.Valid := inferInstanceAs (Decidable (_ = none))

/-- A link that is kept only when it is valid. -/
def check (l : Link) : Except Fault Unit :=
  match l.fault? with
  | some fault => .error fault
  | none => .ok ()

end Link
end Outline
