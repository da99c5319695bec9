import Outline.Text.Utf8

/-!
A store of bytes under keys, whose entries can be dropped together by a tag.

Besides the entries there is an index of which key was stored under which tag. Removing an entry
leaves the index alone, so a key that is stored again, even under other tags, still goes with the
tags it was stored under before. Dropping a tag clears the tag's part of the index.
-/
namespace Outline
set_option autoImplicit false

/-- Entries under their keys, and the keys under their tags. -/
structure Cache where
  entries : List (String × Bytes)
  index : List (String × String)
  deriving DecidableEq

namespace Cache

/-- The cache that holds nothing. -/
def empty : Cache := ⟨[], []⟩

/-- The value under a key. -/
def get? (c : Cache) (key : String) : Option Bytes :=
  (c.entries.find? (·.1 == key)).map (·.2)

/-- Whether there is an entry under a key. -/
def contains (c : Cache) (key : String) : Bool := (c.get? key).isSome

/-- The number of entries. -/
def size (c : Cache) : Nat := c.entries.length

/-- The keys of the entries. -/
def keys (c : Cache) : List String := c.entries.map (·.1)

/-- The cache with a value under a key, which the given tags now cover. -/
def set (c : Cache) (key : String) (value : Bytes) (tags : List String) : Cache where
  entries := (key, value) :: c.entries.filter (·.1 != key)
  index := tags.foldl (fun index tag => index.insert (tag, key)) c.index

/-- The cache without the entry under a key. -/
def remove (c : Cache) (key : String) : Cache :=
  { c with entries := c.entries.filter (·.1 != key) }

/-- The keys that a tag covers. -/
def keysUnder (c : Cache) (tag : String) : List String :=
  (c.index.filter (·.1 == tag)).map (·.2)

/-- The cache without the entries that a tag covers, and without the tag. -/
def invalidate (c : Cache) (tag : String) : Cache where
  entries := c.entries.filter fun entry => !(c.keysUnder tag).contains entry.1
  index := c.index.filter (·.1 != tag)

end Cache
end Outline
