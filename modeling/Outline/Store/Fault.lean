import Outline.Database.Fault

/-!
What can go wrong between a caller and the stored rows.
-/
namespace Outline
set_option autoImplicit false

/-- Stored values that make no link. -/
inductive BadData where
  | childFlag (value : Int64)
  | weight (value : Int64)
  | depth (value : Int64)
  | link (fault : Link.Fault)
  deriving DecidableEq

/-- The text that tells which value is bad. -/
def BadData.message : BadData → String
  | .childFlag value => s!"invalid has_children value `{value}` in book.has_children"
  | .weight value => s!"weight `{value}` out of range in book.weight"
  | .depth value => s!"invalid depth `{value}` in book.depth"
  | .link fault => fault.message

/-- Why the store did not answer. -/
inductive StoreFault where
  | database (fault : DatabaseFault)
  | pageMissing (nid : PageId)
  | versionMismatch (expected actual : Nat)
  | tableMissing (table : String)
  | columnMissing (table column : String)
  | badData (data : BadData)
  deriving DecidableEq

namespace StoreFault

/-- A refusal of the database engine. -/
def engine (fault : EngineFault) : StoreFault := .database (.engine fault)

/-- The text of a store fault. -/
def message : StoreFault → String
  | .database fault => fault.message
  | .pageMissing nid => s!"book link not found: {nid}"
  | .versionMismatch expected actual =>
    s!"book repository requires schema version {expected}, got {actual}"
  | .tableMissing table => s!"book repository requires table `{table}`"
  | .columnMissing table column =>
    s!"book repository requires column `{column}` in table `{table}`"
  | .badData data => "invalid book data: " ++ data.message

/-- The text of the database fault behind a store fault, if there is one. -/
def cause? : StoreFault → Option String
  | .database fault => some fault.message
  | _ => none

end StoreFault
end Outline
