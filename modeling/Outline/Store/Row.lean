import Outline.Store.Cell
import Outline.Store.Fault

/-!
Rows: links as they are stored.

A row made from a link can be read back. Other rows can be stored too, by other hands, so reading
looks at the columns in a fixed order and reports the first that is wrong: the flag, the weight, the
chain, the ids, the depth, and then the link as a whole.
-/
namespace Outline
set_option autoImplicit false

/-- A row of the table of links. The id is the row's key and always a number. -/
structure Row where
  nid : PageId
  bid : Cell
  pid : Cell
  hasChildren : Cell
  weight : Cell
  depth : Cell
  levels : Levels Cell
  deriving DecidableEq

namespace Row

/-- The columns before those of the chain. -/
def leadingColumns : List String := ["nid", "bid", "pid", "has_children", "weight", "depth"]

/-- The columns of the chain. -/
def levelColumns : List String := ["p1", "p2", "p3", "p4", "p5", "p6", "p7", "p8", "p9"]

/-- All columns in order. -/
def columns : List String := leadingColumns ++ levelColumns

/-- The cells in the order of the columns. -/
def cells (r : Row) : List Cell :=
  [.int r.nid, r.bid, r.pid, r.hasChildren, r.weight, r.depth] ++ r.levels.toList

/-- The cell of a flag. -/
def flag (b : Bool) : Cell := .int (if b then 1 else 0)

/-- The row of a link. -/
def ofLink (l : Link) : Row where
  nid := l.nid
  bid := .int l.bid
  pid := .int l.pid
  hasChildren := flag l.hasChildren
  weight := .int l.weight.toInt64
  depth := .int (Int64.ofNat l.depth)
  levels := l.chain.map .int

/-- The whole number in a column. -/
def readInt (index : Nat) (column : String) (c : Cell) : Except StoreFault Int64 :=
  (c.toInt index column).mapError .engine

/-- The flag in a column: one or zero. -/
def readFlag (c : Cell) : Except StoreFault Bool := do
  let value ← readInt 3 "has_children" c
  if value = 0 then return false
  else if value = 1 then return true
  else throw (.badData (.childFlag value))

/-- The weight in a column. -/
def readWeight (c : Cell) : Except StoreFault Int32 := do
  let value ← readInt 4 "weight" c
  if Word.fits32 value.toInt then return value.toInt32
  else throw (.badData (.weight value))

/-- A depth, which is a level. -/
def depthOf (value : Int64) : Except StoreFault Nat :=
  if 1 ≤ value.toInt ∧ value.toInt ≤ maxDepth then .ok value.toInt.toNat
  else .error (.badData (.depth value))

/-- The ids in the columns of the chain, the first of which has the given index. -/
def readIds : Nat → List (String × Cell) → Except StoreFault (List PageId)
  | _, [] => .ok []
  | index, (column, c) :: rest => do
    let id ← readInt index column c
    return id :: (← readIds (index + 1) rest)

/-- The link that a row holds. -/
def toLink (r : Row) : Except StoreFault Link := do
  let hasChildren ← readFlag r.hasChildren
  let weight ← readWeight r.weight
  let ids ← readIds 6 (levelColumns.zip r.levels.toList)
  let bid ← readInt 1 "bid" r.bid
  let pid ← readInt 2 "pid" r.pid
  let depth ← depthOf (← readInt 5 "depth" r.depth)
  let link : Link := ⟨r.nid, bid, pid, hasChildren, weight, depth, Chain.ofList ids⟩
  match link.fault? with
  | some fault => throw (.badData (.link fault))
  | none => return link

/-- The links of rows in order, or the fault of the first that holds none. -/
def toLinks : List Row → Except StoreFault (List Link)
  | [] => .ok []
  | r :: rs => do
    let link ← r.toLink
    return link :: (← toLinks rs)

/-- The first column without a value. -/
def nullColumn? (r : Row) : Option String :=
  ((columns.zip r.cells).find? (·.2 == .null)).map (·.1)

/-- The first condition of the table that a row breaks: columns without a value come first, then the
conditions in the order of their columns. -/
def fault? (r : Row) : Option EngineFault :=
  match r.nullColumn? with
  | some column => some (.nullColumn column)
  | none =>
    if r.nid ≤ 0 then some (.checkFailed .positiveId)
    else if r.hasChildren ≠ .int 0 ∧ r.hasChildren ≠ .int 1 then some (.checkFailed .childFlag)
    else if !r.depth.isBetween 1 9 then some (.checkFailed .depthRange)
    else none

end Row
end Outline
