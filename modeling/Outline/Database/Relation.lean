import Outline.Store.Query

/-!
What the names in a database stand for.

The library's own table of links has conditions and defaults; other tables, made by other hands,
take whatever they are given. The engine does not tell capital letters from small ones in a name.
-/
namespace Outline
set_option autoImplicit false

/-- Whether two names are one to the engine. -/
def sameName (a b : String) : Bool := a.map Char.toLower == b.map Char.toLower

/-- Cells for some columns, by their names. -/
abbrev Cells := List (String × Cell)

namespace Cells

/-- The cell for a column, if there is one. -/
def get? (cs : Cells) (column : String) : Option Cell :=
  (cs.find? fun c => sameName c.1 column).map (·.2)

/-- Names for the number that each row is kept under. Columns of these names go before. -/
def rowNumberNames : List String := ["rowid", "oid", "_rowid_"]

/-- Whether a name stands for the number of a row. -/
def isRowNumber (columns : List String) (name : String) : Bool :=
  rowNumberNames.any (sameName name) && !columns.any (sameName name)

/-- The first of the named columns that stands for nothing. -/
def strange? (cs : Cells) (columns : List String) : Option String :=
  (cs.map (·.1)).find? fun name =>
    !columns.any (sameName name) && !isRowNumber columns name

/-- The last of the cells whose names are taken for the number of a row. -/
def number? (cs : Cells) (isNumber : String → Bool) : Option Cell :=
  (cs.reverse.find? fun c => isNumber c.1).map (·.2)

/-- The least number from one on that is not used. -/
def freeNumber (used : List Int64) : Int64 :=
  (((List.range (used.length + 1)).map fun n => Int64.ofNat (n + 1)).find?
    (!used.contains ·)).getD 1

/-- The number after the last in use. When that is the greatest, a free one is taken. -/
def nextNumber (used : List Int64) : Int64 :=
  match used.getLast? with
  | none => 1
  | some last => if last = Int64.maxValue then freeNumber used else last + 1

/-- The number for a new row: the one given, or else the next. -/
def newNumber (used : List Int64) (given : Option Cell) : Except EngineFault Int64 :=
  match given.map Cell.forWholeColumn with
  | none | some .null => .ok (nextNumber used)
  | some (.int number) => .ok number
  | some _ => .error .wrongIdKind

end Cells

namespace Table

/-- The cell for a column of whole numbers, which is zero if none is given. -/
def given (cs : Cells) (column : String) : Cell :=
  match cs.get? column with
  | none => .int 0
  | some c => c.forWholeColumn

/-- Whether a name stands for the id of a row. -/
def isId (name : String) : Bool := sameName name "nid" || Cells.isRowNumber Row.columns name

/-- The id for a new row. -/
def newId (t : Table) (cs : Cells) : Except EngineFault PageId :=
  Cells.newNumber (t.rows.map Row.nid) (cs.number? isId)

/-- The row with an id and with the cells that are given. -/
def newRow (nid : PageId) (cs : Cells) : Row where
  nid := nid
  bid := given cs "bid"
  pid := given cs "pid"
  hasChildren := given cs "has_children"
  weight := given cs "weight"
  depth := given cs "depth"
  levels := Levels.ofList (.int 0) (Row.levelColumns.map (given cs))

/-- The table with a row of the given cells. -/
def insertCells (t : Table) (cs : Cells) : Except EngineFault Table := do
  let row := newRow (← t.newId cs) cs
  match row.fault? with
  | some fault => throw fault
  | none => if (t.row? row.nid).isSome then throw .duplicateId else return t.put row

/-- The table with a row of the given cells in place of one with its id. The conditions of the table
are not asked, and a column that is given nothing is zero. -/
def putCells (t : Table) (cs : Cells) : Except EngineFault Table := do
  let filled := cs.filter fun c => isId c.1 || c.2 != .null
  return t.put (newRow (← t.newId filled) filled)

end Table

/-- What a name stands for: the table of links, another table, or a view. A bare table keeps its
rows in ascending order of their numbers, each with as many cells as there are columns.

A relation has one list of columns, for the statements that name columns and for the check that a
database is fit. Tables with generated columns, which statements may name and which the engine does
not list, are left out. -/
inductive Relation where
  | links (table : Table)
  | bare (columns : List String) (rows : List (Int64 × List Cell))
  | view (columns : List String)
  deriving DecidableEq

namespace Relation

/-- The columns of a relation. -/
def columns : Relation → List String
  | .links _ => Row.columns
  | .bare columns _ => columns
  | .view columns => columns

/-- Whether rows are kept in a relation itself. -/
def isTable : Relation → Bool
  | .view _ => false
  | _ => true

/-- The kind of a relation. -/
def kind (r : Relation) : String := if r.isTable then "table" else "view"

/-- Whether a relation has a column, to the engine. -/
def hasColumn (r : Relation) (column : String) : Bool := r.columns.any (sameName column)

/-- The rows of a bare table with a new one. -/
def insertBare (name : String) (columns : List String) (rows : List (Int64 × List Cell))
    (cs : Cells) : Except EngineFault (List (Int64 × List Cell)) := do
  let number ← Cells.newNumber (rows.map (·.1)) (cs.number? (Cells.isRowNumber columns))
  if rows.any (·.1 == number) then throw (.duplicateRow name)
  let row := (number, columns.map fun column => (cs.get? column).getD .null)
  return rows.filter (·.1 < number) ++ row :: rows.filter (number < ·.1)

/-- The relation with a row of the given cells. It is asked for by one name and may have been made
by another. -/
def insert (r : Relation) (asked name : String) (cs : Cells) : Except EngineFault Relation :=
  match r, cs.strange? r.columns with
  | .view _, _ => .error (.viewModified name)
  | _, some column => .error (.unknownColumn asked column)
  | .links t, none => (t.insertCells cs).map .links
  | .bare columns rows, none => (insertBare name columns rows cs).map (.bare columns)

/-- The cells of a bare row for the columns of a row of links. -/
def asLinkCells (columns : List String) (row : List Cell) : List Cell :=
  Row.columns.map fun column => (Cells.get? (columns.zip row) column).getD .null

/-- The rows of a relation by the columns of links, ordered by the first of them. A view shows one
row of ones. -/
def linkCells (r : Relation) : Except EngineFault (List (List Cell)) :=
  match Row.columns.find? (!r.hasColumn ·) with
  | some column => .error (.noSuchColumn column)
  | none =>
    match r with
    | .links t => .ok (t.rows.map Row.cells)
    | .bare columns rows =>
      .ok ((rows.map fun row => asLinkCells columns row.2).mergeSort fun a b =>
        (a.headD .null).le (b.headD .null))
    | .view _ => .ok [Row.columns.map fun _ => .int 1]

end Relation
end Outline
