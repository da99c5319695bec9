import Outline.Store.Table

/-!
Selecting rows of a book.

The selected rows come in the order of their chains, column by column. For rows that belong together
that is a preorder: a page comes before the pages below it, and siblings follow their ids.
-/
namespace Outline
set_option autoImplicit false

/-- Which rows of a book are wanted. An empty list of parents asks for nothing. -/
structure Query where
  bid : PageId
  parents : List PageId := []
  maxDepth : Option Nat := none
  path : List PageId := []
  parent : Option PageId := none
  deriving DecidableEq

namespace Query

/-- All rows of a book. -/
def book (bid : PageId) : Query := { bid := bid }

/-- Only the children of the given parents, which are kept in ascending order and each once. There
are never more than eight pages on a trail, so no limit is set to what goes into the statement. -/
def under (q : Query) (parents : List PageId) : Query :=
  { q with parents := (parents.mergeSort (· ≤ ·)).eraseReps }

/-- Only rows down to a depth, if one is given. -/
def downTo (q : Query) (depth : Option Nat) : Query := { q with maxDepth := depth }

/-- Only a page and what is below it. -/
def within (q : Query) (l : Link) : Query := { q with path := l.path }

/-- Only the children of one parent. -/
def childrenOf (q : Query) (pid : PageId) : Query := { q with parent := some pid }

/-- Whether a row's chain starts with the given ids; of more than nine the first nine count. -/
def startsWith (path : List PageId) (r : Row) : Bool :=
  (path.zip r.levels.toList).all fun (id, c) => c == .int id

/-- Whether a row is wanted. Ids are compared as cells are, so the least number of 64 bits is found
only where it is kept as a whole number. -/
def wants (q : Query) (r : Row) : Bool :=
  r.bid == .int q.bid &&
    (q.parents.isEmpty || q.parents.any fun pid => r.pid == .int pid) &&
    (q.maxDepth.all fun depth => r.depth.isAtMost (Int64.ofNat depth)) &&
    startsWith q.path r &&
    q.parent.all fun pid => r.pid == .int pid

end Query

/-- Whether cells do not come after others, compared one by one. -/
def cellsLe : List Cell → List Cell → Bool
  | [], _ => true
  | _ :: _, [] => false
  | a :: as, b :: bs =>
    match a.ordering b with
    | .lt => true
    | .eq => cellsLe as bs
    | .gt => false

namespace Table

/-- The rows that a query wants, in the order of their chains. -/
def wantedRows (t : Table) (q : Query) : List Row :=
  (t.rows.filter q.wants).mergeSort fun a b => cellsLe a.levels.toList b.levels.toList

/-- The links that a query wants, in the order of their chains. -/
def select (t : Table) (q : Query) : Except StoreFault (List Link) :=
  Row.toLinks (t.wantedRows q)

/-- The greatest of some cells that hold anything. -/
def greatest (cs : List Cell) : Option Cell :=
  cs.foldl (fun found c =>
    if c = .null then found
    else match found with
      | none => some c
      | some best => if best.le c then some c else some best) none

/-- The depth of the deepest page at or below a link, or the link's own depth when none is stored.
-/
def maxDepthWithin (t : Table) (l : Link) : Except StoreFault Nat :=
  match greatest ((t.rows.filter ((Query.book l.bid).within l).wants).map Row.depth) with
  | none => .ok l.depth
  | some c => do
    let value ← Row.readInt 0 "MAX(depth)" c
    Row.depthOf value

end Table
end Outline
