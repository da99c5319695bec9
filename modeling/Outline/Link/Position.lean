import Outline.Link.Fault

/-!
Where a page comes to lie under a parent.
-/
namespace Outline
set_option autoImplicit false

/-- A depth together with the chain that reaches it. -/
structure Position where
  depth : Nat
  chain : Chain
  deriving DecidableEq

namespace Position

/-- The position of a page that starts a book. -/
def root (nid : PageId) : Position := ⟨1, Chain.ofList [nid]⟩

/-- The position one level below a parent, unless that is below the ninth level. -/
def below (nid : PageId) (parent : Link) : Except Link.Fault Position :=
  if maxDepth < parent.depth + 1 then .error (.tooDeep nid (parent.depth + 1))
  else .ok ⟨parent.depth + 1, Chain.ofList (parent.path ++ [nid])⟩

/-- The position under a parent, or at the top of a new book when there is none. -/
def under (nid : PageId) : Option Link → Except Link.Fault Position
  | none => .ok (root nid)
  | some parent => below nid parent

end Position

/-- The link of a new page placed under a parent, in the parent's book. -/
def Link.child (nid : PageId) (parent : Link) (weight : Int32) : Except Link.Fault Link :=
  (Position.below nid parent).map fun position =>
    { nid := nid
      bid := parent.bid
      pid := parent.nid
      hasChildren := false
      weight := weight
      depth := position.depth
      chain := position.chain }

end Outline
