import Outline.Database.Relation
import Outline.Proofs.Store.Reading

/-!
Links written column by column.

The engine knows no links: it is given cells for columns, finds them by the names of the columns and
makes a row of them. For the cells of a link this is the row of the link, so inserting a link is
inserting its cells, and a link takes the place of another when its cells are written over the
other's.
-/
namespace Outline
set_option autoImplicit false

theorem sameName_self (name : String) : sameName name name = true := beq_self_eq_true _

namespace Cells

/-- Among cells for columns of different names, the cell of a column is found by its name. -/
theorem get?_zip {names : List String} {values : List Cell} {name : String} {value : Cell}
    (hnames : names.Pairwise fun a b => sameName a b = false) (h : (name, value) ∈ names.zip values) :
    get? (names.zip values) name = some value := by
  induction names generalizing values with
  | nil => cases h
  | cons first names ih =>
    cases values with
    | nil => cases h
    | cons x values =>
      obtain ⟨hfirst, hnames⟩ := List.pairwise_cons.1 hnames
      rw [List.zip_cons_cons, List.mem_cons] at h
      rw [get?, List.zip_cons_cons, List.find?_cons]
      rcases h with heq | h
      · cases heq
        rw [sameName_self]
        rfl
      · rw [hfirst name (List.of_mem_zip h).1]
        exact ih hnames h

end Cells

namespace Table

theorem columns_apart : Row.columns.Pairwise fun a b => sameName a b = false := by decide +kernel

/-- The cells of a link by the names of their columns. -/
def cellsOf (l : Link) : Cells := Row.columns.zip (Row.ofLink l).cells

/-- No column but the first stands for the id. -/
theorem isId_columns : Row.columns.tail.all (!isId ·) = true ∧ isId "nid" = true := by decide +kernel

theorem given_cellsOf {l : Link} {name : String} {value : Int64}
    (h : (name, .int value) ∈ cellsOf l) : given (cellsOf l) name = .int value := by
  rw [given, cellsOf, Cells.get?_zip columns_apart h]
  rfl

theorem number?_cellsOf (l : Link) : (cellsOf l).number? isId = some (.int l.nid) := by
  have hrest : ∀ c ∈ Row.columns.tail.zip (Row.ofLink l).cells.tail, isId c.1 = false := by
    intro c hc
    simpa using List.all_eq_true.1 isId_columns.1 c.1 (List.of_mem_zip hc).1
  have hcells : cellsOf l =
      ("nid", .int l.nid) :: Row.columns.tail.zip (Row.ofLink l).cells.tail := rfl
  rw [hcells, Cells.number?, List.reverse_cons, List.find?_append,
    List.find?_eq_none.2 (by simpa using hrest), List.find?_singleton, isId_columns.2]
  rfl

theorem levels_cellsOf (l : Link) :
    Row.levelColumns.map (given (cellsOf l)) = (l.chain.map Cell.int).toList := by
  have hlen : Row.levelColumns.length = (l.chain.map Cell.int).toList.length := by
    rw [(l.chain.map Cell.int).length_toList]
    rfl
  have hgiven : ∀ c ∈ Row.levelColumns.zip (l.chain.map Cell.int).toList,
      given (cellsOf l) c.1 = c.2 := by
    rintro ⟨name, c⟩ hc
    obtain ⟨value, _, rfl⟩ := List.mem_map.1 (List.of_mem_zip hc).2
    apply given_cellsOf
    have hcells : cellsOf l = Row.leadingColumns.zip ((Row.ofLink l).cells.take 6) ++
        Row.levelColumns.zip (l.chain.map Cell.int).toList := rfl
    rw [hcells]
    exact List.mem_append_right _ hc
  calc Row.levelColumns.map (given (cellsOf l))
      = ((Row.levelColumns.zip (l.chain.map Cell.int).toList).map (·.1)).map
          (given (cellsOf l)) := by rw [List.map_fst_zip (Nat.le_of_eq hlen)]
    _ = (Row.levelColumns.zip (l.chain.map Cell.int).toList).map (·.2) := by
        rw [List.map_map]
        exact List.map_congr_left hgiven
    _ = (l.chain.map Cell.int).toList := List.map_snd_zip (Nat.le_of_eq hlen.symm)

/-- The row that the engine makes of the cells of a link. -/
theorem newRow_cellsOf (l : Link) : newRow l.nid (cellsOf l) = .ofLink l := by
  have hcell (i : Nat) {name : String} {value : Int64}
      (h : (cellsOf l)[i]? = some (name, .int value)) : given (cellsOf l) name = .int value :=
    given_cellsOf (List.mem_of_getElem? h)
  rw [newRow, levels_cellsOf, Levels.ofList_toList, hcell 1 rfl, hcell 2 rfl, hcell 3 rfl,
    hcell 4 rfl, hcell 5 rfl]
  rfl

/-- Inserting a link is inserting its cells by the names of their columns. -/
theorem insert_eq_insertCells (t : Table) (l : Link) :
    t.insert l = (t.insertCells (cellsOf l)).mapError .engine := by
  have hid : t.newId (cellsOf l) = .ok l.nid := by
    rw [newId, number?_cellsOf]
    rfl
  rw [insertCells, hid]
  simp only [bind, Except.bind, newRow_cellsOf, insert]
  cases (Row.ofLink l).fault? with
  | some fault => rfl
  | none =>
    change (if (t.row? l.nid).isSome then _ else _) =
      Except.mapError _ (if (t.row? l.nid).isSome then _ else _)
    cases (t.row? l.nid).isSome <;> rfl

end Table

/-! ### Cells written over those of a row -/

/-- The cell of a column after cells have been written for some columns. -/
def Cells.over (cs : Cells) (column : String) (old : Cell) : Cell :=
  ((cs.get? column).map Cell.forWholeColumn).getD old

namespace Row

/-- A row with cells written for some of its columns. The id is never among them. -/
def written (r : Row) (cs : Cells) : Row where
  nid := r.nid
  bid := cs.over "bid" r.bid
  pid := cs.over "pid" r.pid
  hasChildren := cs.over "has_children" r.hasChildren
  weight := cs.over "weight" r.weight
  depth := cs.over "depth" r.depth
  levels := .ofList (.int 0) (List.zipWith cs.over levelColumns r.levels.toList)

/-- The first condition of the table that a row breaks in the columns that were written. Nothing is
asked of the others. -/
def writtenFault? (r : Row) (cs : Cells) : Option EngineFault :=
  match (columns.zip r.cells).find? fun c => (cs.get? c.1).isSome && c.2 == .null with
  | some (column, _) => some (.nullColumn column)
  | none =>
    if (cs.get? "has_children").isSome ∧ r.hasChildren ≠ .int 0 ∧ r.hasChildren ≠ .int 1 then
      some (.checkFailed .childFlag)
    else if (cs.get? "depth").isSome ∧ !r.depth.isBetween 1 9 then
      some (.checkFailed .depthRange)
    else none

end Row

namespace Table

/-- The table with values written to some columns of one row, and the number of rows written. The
value after those for the columns is the id of the row. -/
def updateCells (t : Table) (columns : List String) (values : List Cell) :
    Except EngineFault (Table × Nat) :=
  match values[columns.length]? with
  | some (.int nid) =>
    match t.row? nid with
    | none => .ok (t, 0)
    | some r =>
      match (r.written (columns.zip values)).writtenFault? (columns.zip values) with
      | some fault => .error fault
      | none => .ok (t.put (r.written (columns.zip values)), 1)
  | _ => .ok (t, 0)

/-- The columns that are written when a link takes the place of another. -/
def linkColumns : List String :=
  ["bid", "pid", "has_children", "weight", "depth"] ++ Row.levelColumns

/-- The values that are written then, and the id of the page. -/
def linkValues (l : Link) : List Cell :=
  [.int l.bid, .int l.pid, Row.flag l.hasChildren, .int l.weight.toInt64,
    .int (Int64.ofNat l.depth)] ++ (l.chain.toList.map .int ++ [.int l.nid])

variable {l : Link} {r : Row}

/-- Where all of some columns are written, the cells that were there make no difference. -/
theorem zipWith_over {cs : Cells} {names : List String} {old new : List Cell}
    (hold : names.length = old.length) (hnew : names.length = new.length)
    (h : ∀ c ∈ names.zip new, ∀ old, cs.over c.1 old = c.2) :
    List.zipWith cs.over names old = new := by
  induction names generalizing old new with
  | nil =>
    rw [List.length_eq_zero_iff.1 hnew.symm]
    rfl
  | cons name names ih =>
    obtain ⟨c, old, rfl⟩ := List.exists_cons_of_length_eq_add_one hold.symm
    obtain ⟨first, new, rfl⟩ := List.exists_cons_of_length_eq_add_one hnew.symm
    rw [List.zip_cons_cons] at h
    rw [List.zipWith_cons_cons, h (name, first) List.mem_cons_self c,
      ih (Nat.succ.inj hold) (Nat.succ.inj hnew) fun c hc => h c (List.mem_cons_of_mem _ hc)]

theorem linkColumns_apart : linkColumns.Pairwise fun a b => sameName a b = false :=
  columns_apart.tail

theorem over_linkValues {name : String} {value : Int64}
    (h : (name, .int value) ∈ linkColumns.zip (linkValues l)) (old : Cell) :
    Cells.over (linkColumns.zip (linkValues l)) name old = .int value := by
  rw [Cells.over, Cells.get?_zip linkColumns_apart h]
  rfl

theorem levels_linkValues (old : Levels Cell) :
    List.zipWith (Cells.over (linkColumns.zip (linkValues l))) Row.levelColumns old.toList =
      (l.chain.map Cell.int).toList := by
  have hlen (a : Levels Cell) : Row.levelColumns.length = a.toList.length := by
    rw [a.length_toList]
    rfl
  refine zipWith_over (hlen old) (hlen _) ?_
  rintro ⟨name, c⟩ hc
  obtain ⟨value, _, rfl⟩ := List.mem_map.1 (List.of_mem_zip hc).2
  apply over_linkValues
  have hcells : linkColumns.zip (linkValues l) =
      (linkColumns.take 5).zip ((linkValues l).take 5) ++
        (Row.levelColumns ++ []).zip ((l.chain.map Cell.int).toList ++ [Cell.int l.nid]) := rfl
  rw [hcells, List.zip_append (hlen _)]
  exact List.mem_append_right _ (List.mem_append_left _ hc)

/-- Written over all its columns, a row becomes the row of the link. -/
theorem written_linkValues (h : r.nid = l.nid) :
    r.written (linkColumns.zip (linkValues l)) = .ofLink l := by
  have hcell (i : Nat) {name : String} {value : Int64} (old : Cell)
      (h : (linkColumns.zip (linkValues l))[i]? = some (name, .int value)) :
      Cells.over (linkColumns.zip (linkValues l)) name old = .int value :=
    over_linkValues (List.mem_of_getElem? h) old
  rw [Row.written, levels_linkValues, Levels.ofList_toList, hcell 0 _ rfl, hcell 1 _ rfl,
    hcell 2 _ rfl, hcell 3 _ rfl, hcell 4 _ rfl, h]
  rfl

/-- Of the written link only the depth is in question. -/
theorem writtenFault?_linkValues (l : Link) :
    (Row.ofLink l).writtenFault? (linkColumns.zip (linkValues l)) =
      if !(Row.ofLink l).depth.isBetween 1 9 then some (.checkFailed .depthRange) else none := by
  have hnull : (Row.columns.zip (Row.ofLink l).cells).find?
      (fun c => (Cells.get? (linkColumns.zip (linkValues l)) c.1).isSome && c.2 == .null) =
        none := by
    have hcells := Row.nullColumn?_ofLink l
    rw [Row.nullColumn?, Option.map_eq_none_iff, List.find?_eq_none] at hcells
    rw [List.find?_eq_none]
    intro c hc hwritten
    exact hcells c hc (Bool.and_eq_true_iff.1 hwritten).2
  have hflag : ¬ ((Row.ofLink l).hasChildren ≠ .int 0 ∧ (Row.ofLink l).hasChildren ≠ .int 1) := by
    rw [Row.ofLink, Row.flag]
    cases l.hasChildren <;> simp
  have hdepth : (Cells.get? (linkColumns.zip (linkValues l)) "depth").isSome = true := by
    rw [Cells.get?_zip linkColumns_apart (List.mem_of_getElem? (i := 4) rfl)]
    rfl
  rw [Row.writtenFault?, hnull]
  simp only [hflag, and_false, if_false, hdepth, true_and]

theorem updateCells_linkValues (t : Table) (l : Link) :
    t.updateCells linkColumns (linkValues l) =
      if (t.row? l.nid).isNone then .ok (t, 0)
      else if !(Row.ofLink l).depth.isBetween 1 9 then .error (.checkFailed .depthRange)
      else .ok (t.put (.ofLink l), 1) := by
  have hlen : ([.int l.bid, .int l.pid, Row.flag l.hasChildren, .int l.weight.toInt64,
      .int (Int64.ofNat l.depth)] ++ l.chain.toList.map Cell.int).length = linkColumns.length := by
    rw [List.length_append, List.length_map, l.chain.length_toList]
    rfl
  have hid : (linkValues l)[linkColumns.length]? = some (.int l.nid) := by
    rw [linkValues, ← List.append_assoc, ← hlen, List.getElem?_concat_length]
  simp only [updateCells, hid]
  cases hr : t.row? l.nid with
  | none => rfl
  | some r =>
    simp only [written_linkValues (row?_eq_some_iff.1 hr).2, writtenFault?_linkValues]
    cases (Row.ofLink l).depth.isBetween 1 9 <;> rfl

/-- Putting a link in the place of another is writing its cells over the other's by the names of
their columns. When no row was written, the page has no link. -/
theorem update_eq_updateCells (t : Table) (l : Link) :
    t.update l = (do
      let (t', changed) ← (t.updateCells linkColumns (linkValues l)).mapError .engine
      if changed = 0 then throw (.pageMissing l.nid) else return t') := by
  rw [update, updateCells_linkValues]
  cases (t.row? l.nid).isNone
  · cases (Row.ofLink l).depth.isBetween 1 9 <;> rfl
  · rfl

end Table
end Outline
