import Outline.Database.Fault
import Outline.Store.Numeral

/-!
Cells: the values that a database engine keeps in the columns of a table.

Values of all kinds compare: nothing before numbers, numbers by size, texts after all numbers. A
column of whole numbers turns what looks like one into one and keeps everything else as it is.
-/
namespace Outline
set_option autoImplicit false

/-- A value of a column. The engine keeps strings of bytes as well, which are left out here: where
a number is read they are refused as texts are, and they come after all texts.

Two cells are equal when they are of one kind and hold the same. The engine takes a real number and
a whole number of the same size for equal too. A column of whole numbers keeps only one such pair,
since `ofReal` makes whole numbers of all others: the least number of 64 bits, which may be there as
a real number. That pair is told apart here. -/
inductive Cell where
  | null
  | int (value : Int64)
  | real (value : Double)
  | text (value : String)
  deriving DecidableEq

namespace Cell

/-- The name of a cell's kind. -/
def kind : Cell → String
  | null => "Null"
  | int _ => "Integer"
  | real _ => "Real"
  | text _ => "Text"

/-- The order of two cells. -/
def ordering : Cell → Cell → Ordering
  | null, null => .eq
  | null, _ => .lt
  | _, null => .gt
  | text a, text b => compare a b
  | text _, _ => .gt
  | _, text _ => .lt
  | int a, int b => compare a b
  | int a, real b => (Double.ofInt a.toInt).ordering b
  | real a, int b => a.ordering (Double.ofInt b.toInt)
  | real a, real b => a.ordering b

/-- Whether a cell does not come after another. -/
def le (a b : Cell) : Bool := (ordering a b).isLE

/-- Whether a cell holds something that is not greater than a number. -/
def isAtMost (c : Cell) (limit : Int64) : Bool := c != null && c.le (int limit)

/-- Whether a cell holds something between two numbers. -/
def isBetween (c : Cell) (least most : Int64) : Bool := (int least).le c && c.isAtMost most

/-- The whole number in a cell of a column. -/
def toInt (index : Nat) (column : String) : Cell → Except EngineFault Int64
  | int value => .ok value
  | c => .error (.wrongKind c.kind index column)

/-- A real number as a column of whole numbers keeps it: as a whole number if it is one that fits.
The least number of 64 bits is not taken for one. -/
def ofReal (value : Double) : Cell :=
  match value.whole? with
  | some i => if Word.fits64 i ∧ i ≠ Word.min64 then int (Int64.ofInt i) else real value
  | none => real value

/-- A spelled out number as a column of whole numbers keeps it. -/
def ofNumeral (n : Numeral) : Cell :=
  match n.whole? with
  | some i => if Word.fits64 i then int (Int64.ofInt i) else ofReal n.toDouble
  | none => ofReal n.toDouble

/-- A cell as a column of whole numbers keeps it. -/
def forWholeColumn : Cell → Cell
  | text value => ((Numeral.ofText? value).map ofNumeral).getD (text value)
  | real value => ofReal value
  | c => c

end Cell
end Outline
