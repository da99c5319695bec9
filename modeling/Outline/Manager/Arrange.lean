import Outline.Link.Position
import Outline.Manager.Fault
import Outline.Store.Query

/-!
Placing, moving and removing pages in a table of links.

These are pieces of work on a table. They write as they go, so one that is refused half way leaves a
table with some of its writes; taking those back is the business of the transaction around it.
-/
namespace Outline
set_option autoImplicit false

/-- Work on a table of links that may be refused. -/
abbrev TableWork (α : Type) := EStateM OutlineFault Table α

namespace Arrange

/-- What a look at the table tells, or its fault as a refusal. -/
def look {α : Type} (f : Table → Except StoreFault α) : TableWork α := fun t =>
  match f t with
  | .ok a => .ok a t
  | .error fault => .error (.ofStore fault) t

/-- A write to the table, or its fault as a refusal. -/
def write (f : Table → Except StoreFault Table) : TableWork Unit := fun t =>
  match f t with
  | .ok t' => .ok () t'
  | .error fault => .error (.ofStore fault) t

/-- A value of the rules for links, or their fault as a refusal. -/
def require {α : Type} : Except Link.Fault α → TableWork α
  | .ok a => pure a
  | .error fault => throw (.ofLink fault)

/-- The link of a page, which has to have one. -/
def linkOf (nid : PageId) : TableWork Link := do
  match ← look (·.link? nid) with
  | some l => return l
  | none => throw (.pageMissing nid)

/-- Refuses a page that has a link. -/
def requireUnplaced (nid : PageId) : TableWork Unit := do
  if (← look (·.link? nid)).isSome then throw (.alreadyInBook nid)

/-- Stores the link of a page that starts a book. -/
def addRoot (l : Link) : TableWork Unit := do
  require l.check
  requireUnplaced l.nid
  write (·.insert l)

/-- Places a page under a parent, in the parent's book. -/
def addChild (nid pid : PageId) (weight : Int32) : TableWork Link := do
  requireUnplaced nid
  let parent ← linkOf pid
  let l ← require (Link.child nid parent weight)
  require l.check
  write (·.insert l)
  write fun t => .ok (t.setHasChildren parent.nid true)
  return l

/-- Writes anew whether the parent that a page leaves has other children in the page's book. -/
def leaveParent (left : Link) : TableWork Unit := do
  if left.pid ≠ 0 then
    write fun t => .ok
      (t.setHasChildren left.pid (0 < t.countChildren left.bid left.pid (some left.nid)))

/-- The parent to move under, none for the top of a new book. It must not be the page itself or lie
below it. -/
def newParent (nid pid : PageId) : TableWork (Option Link) := do
  if pid = 0 then return none
  let parent ← linkOf pid
  if parent.isWithin nid then throw (.invalidMove nid pid)
  return some parent

/-- The link of a page below one that has moved: the same distance below it, in its book. A page
that would come to lie above the first level is refused. -/
def shifted (old moved descendant : Link) : Except OutlineFault Link :=
  if descendant.depth + moved.depth < old.depth then
    .error (.depthExceeded descendant.nid 0)
  else .ok
    { descendant with
      bid := moved.bid
      depth := descendant.depth + moved.depth - old.depth
      chain := descendant.chain.rebase moved.path old.depth }

/-- Writes the links of pages below one that has moved. -/
def shiftAll (old moved : Link) : List Link → TableWork Unit
  | [] => return ()
  | descendant :: rest => do
    match shifted old moved descendant with
    | .error refusal => throw refusal
    | .ok l => write (·.update l)
    shiftAll old moved rest

/-- Moves a page and all below it under another parent. What is below is read before anything is
written. -/
def moveSubtree (old : Link) (pid : PageId) (weight : Int32) :
    TableWork (Link × List PageId) := do
  let parent ← newParent old.nid pid
  let position ← require (Position.under old.nid parent)
  let deepest := position.depth + ((← look (·.maxDepthWithin old)) - old.depth)
  if maxDepth < deepest then throw (.depthExceeded old.nid deepest)
  let subtree ← look (·.select ((Query.book old.bid).within old))
  let moved : Link :=
    { nid := old.nid
      bid := (parent.map Link.bid).getD old.nid
      pid := pid
      hasChildren := old.hasChildren
      weight := weight
      depth := position.depth
      chain := position.chain }
  require moved.check
  write (·.update moved)
  shiftAll old moved (subtree.filter (·.nid != old.nid))
  leaveParent old
  if pid ≠ 0 then write fun t => .ok (t.setHasChildren pid true)
  return (moved, if moved.bid = old.bid then [old.bid] else [old.bid, moved.bid])

/-- Moves a page with the given link under a parent, zero making it the root of its own book. Under
the parent it has, only its weight is written. The books that were touched are returned with its new
link. -/
def move (old : Link) (pid : PageId) (weight : Option Int32) :
    TableWork (Link × List PageId) := do
  let weight := weight.getD old.weight
  if pid = old.pid then
    let saved := { old with weight := weight }
    if old.weight ≠ weight then write (·.update saved)
    return (saved, [old.bid])
  else moveSubtree old pid weight

/-- Moves each of some pages to the top of a book of its own. -/
def promoteAll : List Link → TableWork (List PageId)
  | [] => return []
  | child :: rest => do
    let (_, touched) ← move child 0 none
    return touched ++ (← promoteAll rest)

/-- Removes a page. The children of a book root become roots themselves, their links being read
before the root is removed; the children of any other page stay where they are. -/
def delete (nid : PageId) : TableWork (List PageId) := do
  let old ← linkOf nid
  let orphans ← (if old.isBookRoot then
      look (·.select ((Query.book old.bid).childrenOf nid))
    else return [])
  write (·.delete nid)
  let touched ← promoteAll orphans
  leaveParent old
  return old.bid :: touched

end Arrange
end Outline
