import Outline.Store.Row

/-!
The table of links: rows in ascending order of their ids.

Reading turns rows into links; writing checks the conditions of the table. A write that is refused
changes nothing.
-/
namespace Outline
set_option autoImplicit false

/-- Rows in ascending order of ids, so that each id has at most one row. -/
structure Table where
  rows : List Row
  ordered : rows.Pairwise fun a b => a.nid < b.nid

namespace Table

@[ext] theorem ext {a b : Table} (h : a.rows = b.rows) : a = b := by
  cases a; cases b; cases h; rfl

instance : DecidableEq Table := fun a b =>
  if h : a.rows = b.rows then isTrue (ext h) else isFalse fun e => h (e ▸ rfl)

/-- The table without rows. -/
def empty : Table := ⟨[], .nil⟩

/-- The row of an id. -/
def row? (t : Table) (nid : PageId) : Option Row := t.rows.find? (·.nid == nid)

/-- The table with a row, which takes the place of one with the same id. -/
def put (t : Table) (r : Row) : Table where
  rows := t.rows.filter (·.nid < r.nid) ++ r :: t.rows.filter (r.nid < ·.nid)
  ordered := by
    refine List.pairwise_append.2 ⟨t.ordered.filter _, ?_, ?_⟩
    · refine List.pairwise_cons.2 ⟨?_, t.ordered.filter _⟩
      intro b hb
      simpa using (List.mem_filter.1 hb).2
    · intro a ha b hb
      have ha' : a.nid < r.nid := by simpa using (List.mem_filter.1 ha).2
      rcases List.mem_cons.1 hb with rfl | hb
      · exact ha'
      · exact Int64.lt_trans ha' (by simpa using (List.mem_filter.1 hb).2)

/-- The table without the row of an id. -/
def erase (t : Table) (nid : PageId) : Table where
  rows := t.rows.filter (·.nid != nid)
  ordered := t.ordered.filter _

/-- The link of a page, if it has one. -/
def link? (t : Table) (nid : PageId) : Except StoreFault (Option Link) :=
  match t.row? nid with
  | none => .ok none
  | some r => r.toLink.map some

/-- The most ids that the engine takes in one statement. -/
def maxVariables : Nat := 32766

/-- The links of those of the given pages that have one, in ascending order of ids. All ids go into
one statement, and where there is a limit to what the engine takes, more are refused. -/
def links (t : Table) (nids : List PageId) (limit : Option Nat := none) :
    Except StoreFault (List Link) :=
  if limit.any (· < nids.length) then .error (.engine .tooManyVariables)
  else Row.toLinks (t.rows.filter fun r => nids.contains r.nid)

/-- The table with a new link. -/
def insert (t : Table) (l : Link) : Except StoreFault Table :=
  match (Row.ofLink l).fault? with
  | some fault => .error (.engine fault)
  | none =>
    if (t.row? l.nid).isSome then .error (.engine .duplicateId) else .ok (t.put (.ofLink l))

/-- The table with a link in place of the one that its page has. The id is not written, so nothing
is asked of it. -/
def update (t : Table) (l : Link) : Except StoreFault Table :=
  if (t.row? l.nid).isNone then .error (.pageMissing l.nid)
  else if !(Row.ofLink l).depth.isBetween 1 9 then .error (.engine (.checkFailed .depthRange))
  else .ok (t.put (.ofLink l))

/-- The table without the link of a page, which has to have one. -/
def delete (t : Table) (nid : PageId) : Except StoreFault Table :=
  if (t.row? nid).isNone then .error (.pageMissing nid) else .ok (t.erase nid)

/-- The table with a page's flag written; a page without a row is passed over. -/
def setHasChildren (t : Table) (nid : PageId) (value : Bool) : Table :=
  match t.row? nid with
  | none => t
  | some r => t.put { r with hasChildren := Row.flag value }

/-- The ids of all books, each once, in ascending order. -/
def bookIds (t : Table) : Except StoreFault (List PageId) :=
  ((t.rows.map Row.bid).mergeSort Cell.le).eraseReps.mapM (Row.readInt 0 "bid")

/-- The number of pages under a parent in a book, one page not counted if so wanted. -/
def countChildren (t : Table) (bid pid : PageId) (excluding : Option PageId) : Nat :=
  t.rows.countP fun r => r.bid == .int bid && r.pid == .int pid && excluding.all (r.nid != ·)

end Table
end Outline
