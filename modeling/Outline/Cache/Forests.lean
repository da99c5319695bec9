import Outline.Cache.Tagged
import Outline.Digest.Sha256
import Outline.Event
import Outline.Forest.Decode
import Outline.Forest.Encode

/-!
Forests kept in a cache.

A forest of a whole book is kept under a key that names the request. The forest below one page is
kept under the digest of its bytes, and a pointer under the page's own key names that place, so
equal forests are kept once. Every entry carries the tag of the book it was made from. What cannot
be read back counts as missing.
-/
namespace Outline.Cache
set_option autoImplicit false

/-- The tag of all that was made from a book. -/
def bookTag (bid : PageId) : String := "bid:" ++ Decimal.text bid.toInt

/-- The key of a book's forest, for a page in focus and a depth limit, zero standing for none. -/
def bookKey (locale : String) (bid focus : PageId) (depthLimit : Option Nat) : String :=
  "book-links:" ++ Decimal.text bid.toInt ++ ":all:" ++ Decimal.text focus.toInt ++ ":" ++ locale ++
    ":" ++ Decimal.text (depthLimit.getD 0)

/-- The key of the pointer to the forest of a page. -/
def pointerKey (locale : String) (nid : PageId) : String :=
  "book-links:subtree-cid:" ++ Decimal.text nid.toInt ++ ":" ++ locale

/-- The key of a forest that is kept under its digest. -/
def payloadKey (payload : Bytes) : String := "book-links:subtree-data:" ++ Sha256.hex payload

/-- An event of the cache. -/
def event (level : Level) (status : String) (details : List (String × String)) : Event :=
  ⟨level, "tree_cache", "cache", status, details⟩

/-- The forest under a key, and what is told about the search. -/
def forestAt (c : Cache) (key : String) : Option BookForest × Event :=
  match c.get? key with
  | none => (none, event .debug "miss" [("key", key)])
  | some bytes =>
    match BookForest.decode? bytes with
    | some f => (some f, event .debug "hit" [("key", key)])
    | none =>
      (none, event .warn "error"
        [("error_code", "decode_failed"), ("key", key), ("error", "#")])

/-- The cache with a book's forest under a key. -/
def putForest (c : Cache) (key : String) (bid : PageId) (f : BookForest) : Cache :=
  c.set key f.encode [bookTag bid]

/-- The forest of a page, found through its pointer, and what is told about the search. -/
def subtreeOf (c : Cache) (locale : String) (nid : PageId) : Option BookForest × List Event :=
  match c.get? (pointerKey locale nid) with
  | none => (none, [])
  | some pointer =>
    match Text.ofUtf8? pointer with
    | none =>
      (none, [event .warn "error"
        [("error_code", "bad_pointer"), ("key", pointerKey locale nid)]])
    | some key =>
      let (found, told) := c.forestAt key
      (found, [told])

/-- The cache with the forest of a page. A payload that is there already stays as it is. -/
def putSubtree (c : Cache) (locale : String) (link : Link) (f : BookForest) : Cache :=
  let payload := f.encode
  let key := payloadKey payload
  let tags := [bookTag link.bid]
  let c := if c.contains key then c else c.set key payload tags
  c.set (pointerKey locale link.nid) (Text.utf8 key) tags

/-- The cache without what was made from a book. -/
def dropBook (c : Cache) (bid : PageId) : Cache := c.invalidate (bookTag bid)

/-- What is told when a book is dropped. -/
def dropped (bid : PageId) : Event :=
  event .debug "invalidated" [("bid", Decimal.text bid.toInt)]

end Outline.Cache
