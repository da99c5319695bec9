import Outline.Forest.Item
import Outline.Json.Skip

/-!
Forests from bytes.

Links and items are objects, whose fields may come in any order and among fields of other names, or
lists of all their fields in order. Only a title may be missing or null. Lists and objects that are
read may lie in each other up to a limit.
-/
namespace Outline
set_option autoImplicit false

open Json

/-- How deep lists and objects may lie in each other. -/
def nestingLimit : Nat := 127

namespace Link

/-- The fields of a link met so far. -/
structure Fields where
  nid : Option PageId := none
  bid : Option PageId := none
  pid : Option PageId := none
  hasChildren : Option Bool := none
  weight : Option Int32 := none
  depth : Option Nat := none
  chain : Option Chain := none

/-- The link that has all fields. -/
def Fields.toLink? (f : Fields) : Option Link := do
  return ⟨← f.nid, ← f.bid, ← f.pid, ← f.hasChildren, ← f.weight, ← f.depth, ← f.chain⟩

/-- A page id. -/
def readId : Reader PageId := Int64.ofInt <$> integer Word.min64 Word.max64

/-- A weight. -/
def readWeight : Reader Int32 := Int32.ofInt <$> integer Word.min32 Word.max32

/-- A depth. -/
def readDepth : Reader Nat := Int.toNat <$> integer 0 Word.maxUnsigned32

/-- The ids of a chain that are left, each of them there. -/
def readIds : Nat → Bool → Reader (List PageId)
  | 0, _ => return []
  | n + 1, first => do
    let id ← nextElement first readId
    return id :: (← readIds n false)

/-- A chain: a list of nine ids. -/
def readChain (nesting : Nat) : Reader Chain := do
  let b ← peekValue
  if b = 0x5B then
    if nesting = 0 then throw .malformed
    drop
    let ids ← readIds maxDepth true
    closeList
    return Chain.ofList ids
  else refuse

/-- A field of a link in the form of an object. -/
def readField (nesting : Nat) (name : String) (f : Fields) : Reader Fields :=
  if name = "nid" then do return { f with nid := ← once f.nid readId }
  else if name = "bid" then do return { f with bid := ← once f.bid readId }
  else if name = "pid" then do return { f with pid := ← once f.pid readId }
  else if name = "has_children" then do
    return { f with hasChildren := ← once f.hasChildren truth }
  else if name = "weight" then do return { f with weight := ← once f.weight readWeight }
  else if name = "depth" then do return { f with depth := ← once f.depth readDepth }
  else if name = "parents" then do return { f with chain := ← once f.chain (readChain nesting) }
  else do
    colon
    skipValue
    return f

/-- The fields of a link in the form of a list. -/
def readElements (nesting : Nat) : Reader Link := do
  let nid ← nextElement true readId
  let bid ← nextElement false readId
  let pid ← nextElement false readId
  let hasChildren ← nextElement false truth
  let weight ← nextElement false readWeight
  let depth ← nextElement false readDepth
  let chain ← nextElement false (readChain nesting)
  closeList
  return ⟨nid, bid, pid, hasChildren, weight, depth, chain⟩

/-- A link in either form. -/
def read : Nat → Reader Link
  | 0 => do
    let b ← peekValue
    if b = 0x5B ∨ b = 0x7B then throw .malformed else refuse
  | nesting + 1 => do
    let b ← peekValue
    if b = 0x5B then
      drop
      readElements nesting
    else if b = 0x7B then
      drop
      match (← objectBody (readField nesting) {}).toLink? with
      | some link => return link
      | none => throw .unsuitable
    else refuse

end Link

namespace BookForest

/-- The fields of an item met so far, with what is below it. -/
structure Fields where
  link : Option Link := none
  title : Option (Option String) := none
  active : Option Bool := none
  below : Option BookForest := none

/-- The tree that has all fields but possibly the title. -/
def Fields.toTree? (f : Fields) : Option (Item × BookForest) := do
  return (⟨← f.link, f.title.getD none, ← f.active⟩, ← f.below)

/-- A field of an item in the form of an object. -/
def readField (link : Reader Link) (below : Reader BookForest) (name : String) (f : Fields) :
    Reader Fields :=
  if name = "link" then do return { f with link := ← once f.link link }
  else if name = "title" then do return { f with title := ← once f.title optionalText }
  else if name = "in_active_trail" then do return { f with active := ← once f.active truth }
  else if name = "below" then do return { f with below := ← once f.below below }
  else do
    colon
    skipValue
    return f

/-- An item with what is below it, in either form. -/
def readTree (link : Reader Link) (below : Reader BookForest) : Reader (Item × BookForest) := do
  let b ← peekValue
  if b = 0x5B then
    drop
    let link ← nextElement true link
    let title ← nextElement false optionalText
    let active ← nextElement false truth
    let below ← nextElement false below
    closeList
    return (⟨link, title, active⟩, below)
  else if b = 0x7B then
    drop
    match (← objectBody (readField link below) {}).toTree? with
    | some tree => return tree
    | none => throw .unsuitable
  else refuse

/-- A forest in which lists and objects may still lie that deep in each other. Each level of items
takes two: its list, and the item. -/
def read : Nat → Reader BookForest
  | 0 => throw .malformed
  | 1 => Forest.ofTrees <$> listOf (throw .malformed)
  | nesting + 2 => Forest.ofTrees <$> listOf (readTree (Link.read nesting) (read nesting))

/-- The forest that some bytes encode. -/
def decode? (bs : Bytes) : Option BookForest :=
  match readAll (read nestingLimit) bs with
  | .ok f => some f
  | .error _ => none

end BookForest
end Outline
