import Outline.Store.Fault

/-!
Why an outline operation was refused.
-/
namespace Outline
set_option autoImplicit false

/-- The refusals of the outline manager. A depth is the one that the page, or the deepest page below
it, would have had. -/
inductive OutlineFault where
  | depthExceeded (nid : PageId) (depth : Nat)
  | pageMissing (nid : PageId)
  | invalidMove (nid parent : PageId)
  | alreadyInBook (nid : PageId)
  | invalidLink (fault : Link.Fault)
  | storeUnavailable (fault : StoreFault)
  deriving DecidableEq

namespace OutlineFault

/-- The text of a refusal. -/
def message : OutlineFault → String
  | .depthExceeded nid depth =>
    s!"placing page {nid} would reach depth {depth}, maximum is {maxDepth}"
  | .pageMissing nid => s!"page not in any book: {nid}"
  | .invalidMove nid parent => s!"cannot move page {nid} under its own descendant {parent}"
  | .alreadyInBook nid => s!"page already in a book: {nid}"
  | .invalidLink fault => fault.message
  | .storeUnavailable fault => "book store unavailable: " ++ fault.message

/-- The text of the fault behind a refusal, if there is one. -/
def cause? : OutlineFault → Option String
  | .invalidLink fault => some fault.message
  | .storeUnavailable fault => some fault.message
  | _ => none

/-- The refusal that a store fault leads to. -/
def ofStore : StoreFault → OutlineFault
  | .pageMissing nid => .pageMissing nid
  | fault => .storeUnavailable fault

/-- The refusal that a link fault leads to. -/
def ofLink : Link.Fault → OutlineFault
  | .tooDeep nid depth => .depthExceeded nid depth
  | fault => .invalidLink fault

end OutlineFault
end Outline
