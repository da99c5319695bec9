import Outline.Forest.Item
import Outline.Json.Writer

/-!
Forests as bytes: compact JSON with the fields in a fixed order, a missing title left out.
-/
namespace Outline
set_option autoImplicit false

open Json

/-- A link as an object. -/
def Link.encode (l : Link) : Bytes :=
  writeObject
    [writeMember "nid" (writeInt l.nid.toInt),
     writeMember "bid" (writeInt l.bid.toInt),
     writeMember "pid" (writeInt l.pid.toInt),
     writeMember "has_children" (writeTruth l.hasChildren),
     writeMember "weight" (writeInt l.weight.toInt),
     writeMember "depth" (writeInt l.depth),
     writeMember "parents" (writeList (l.chain.toList.map fun id => writeInt id.toInt))]

/-- An item as an object, what is below it being written already. -/
def Item.encode (item : Item) (below : Bytes) : Bytes :=
  writeObject
    ([writeMember "link" item.link.encode] ++
     (item.title.map fun title => writeMember "title" (writeText title)).toList ++
     [writeMember "in_active_trail" (writeTruth item.active), writeMember "below" below])

namespace BookForest

/-- The trees of a forest as objects. -/
def encodeTrees : BookForest → List Bytes
  | .nil => []
  | .cons item below rest => item.encode (writeList (encodeTrees below)) :: encodeTrees rest

/-- A forest as a list of its trees. -/
def encode (f : BookForest) : Bytes := writeList (encodeTrees f)

end BookForest
end Outline
