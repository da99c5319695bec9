import Outline.Proofs.Cache.Pointers
import Outline.Proofs.Cache.ReadBack
import Outline.Proofs.Manager.Faithful

/-!
The forests of pages in a cache with any history.

Pages share what is kept under a digest, of whatever books they are. It goes with the tags of those
that put it there, may be removed by itself, and comes back with the next page whose forest has that
digest. Pointers stay all the while. Still a page is told nothing but its own forest, as long as no
two forests have one digest.
-/
namespace Outline.Cache
set_option autoImplicit false

/-- What is done with a cache besides looking into it. -/
inductive Operation where
  | putSubtree (l : Link) (f : BookForest)
  | putForest (bid focus : PageId) (depthLimit : Option Nat) (tagged : PageId) (f : BookForest)
  | dropBooks (bids : List PageId)
  | remove (key : String)

namespace Operation

/-- Does an operation. -/
def apply (locale : String) (c : Cache) : Operation → Cache
  | putSubtree l f => c.putSubtree locale l f
  | putForest bid focus depthLimit tagged f =>
    c.putForest (bookKey locale bid focus depthLimit) tagged f
  | dropBooks bids => bids.foldl dropBook c
  | remove key => c.remove key

/-- Whether an operation puts a forest for a page. -/
def PutsFor (n : PageId) : Operation → Prop
  | putSubtree l _ => l.nid = n
  | _ => False

/-- Whether an operation drops a book. -/
def Drops (bid : PageId) : Operation → Prop
  | dropBooks bids => bid ∈ bids
  | _ => False

/-- The bytes that an operation may keep under their digest. -/
def payload? : Operation → Option Bytes
  | putSubtree _ f => some f.encode
  | _ => none

/-- Whether all depths in a forest that an operation puts for a page are 32-bit numbers. -/
def Encodable : Operation → Prop
  | putSubtree _ f => f.All fun item => item.link.depth ≤ Word.maxUnsigned32
  | _ => True

end Operation

/-- The cache after some operations on an empty one. -/
def after (locale : String) (ops : List Operation) : Cache :=
  ops.foldl (Operation.apply locale) .empty

/-- Whether a forest is the last one that was put for a page, with a link whose book was not dropped
since. -/
def LastPut (ops : List Operation) (n : PageId) (l : Link) (f : BookForest) : Prop :=
  ∃ before since, ops = before ++ .putSubtree l f :: since ∧ l.nid = n ∧
    ∀ op ∈ since, ¬ op.PutsFor n ∧ ¬ op.Drops l.bid

section LastPut

variable {ops : List Operation} {op : Operation} {n : PageId} {l : Link} {f : BookForest}

theorem lastPut_self (ops : List Operation) (l : Link) (f : BookForest) :
    LastPut (ops ++ [.putSubtree l f]) l.nid l f :=
  ⟨ops, [], rfl, rfl, by simp⟩

theorem LastPut.concat (h : LastPut ops n l f) (hput : ¬ op.PutsFor n) (hdrop : ¬ op.Drops l.bid) :
    LastPut (ops ++ [op]) n l f := by
  obtain ⟨before, since, rfl, hnid, hsince⟩ := h
  refine ⟨before, since ++ [op], by simp, hnid, fun op' hop => ?_⟩
  rcases List.mem_append.1 hop with hop | hop
  · exact hsince op' hop
  · obtain rfl := List.mem_singleton.1 hop
    exact ⟨hput, hdrop⟩

theorem LastPut.mem (h : LastPut ops n l f) : .putSubtree l f ∈ ops := by
  obtain ⟨before, since, rfl, _⟩ := h
  simp

end LastPut

/-- What pointers and payloads of a cache with a history are: a pointer is the digest of the forest
last put for its page, under the tag of that link's book; a payload was put and has its digest. -/
structure Recalls (locale : String) (ops : List Operation) (c : Cache) : Prop where
  pointer : ∀ n bytes, c.get? (pointerKey locale n) = some bytes →
    ∃ l f, LastPut ops n l f ∧ (bookTag l.bid, pointerKey locale n) ∈ c.index ∧
      bytes = Text.utf8 (payloadKey f.encode)
  payload : HoldsPayloads (ops.filterMap Operation.payload?) c

section Recalls

variable {locale : String} {ops : List Operation} {c : Cache} {l : Link} {f : BookForest}
  {op : Operation}

theorem recalls_empty (locale : String) : Recalls locale [] .empty := by
  constructor
  · intro n bytes hget
    cases hget
  · intro p bytes hget
    cases hget

theorem payloads_subset (ops : List Operation) (op : Operation) :
    ops.filterMap Operation.payload? ⊆ (ops ++ [op]).filterMap Operation.payload? := by
  rw [List.filterMap_append]
  exact List.subset_append_left _ _

theorem Recalls.putForest (h : Recalls locale ops c) (bid focus : PageId) (d : Option Nat)
    (tagged : PageId) (f : BookForest) :
    Recalls locale (ops ++ [.putForest bid focus d tagged f])
      (c.putForest (bookKey locale bid focus d) tagged f) := by
  constructor
  · intro n bytes hget
    rw [Cache.putForest, get?_set, if_neg (Ne.symm bookKey_ne_pointerKey)] at hget
    obtain ⟨l, g, hlast, hindex, hbytes⟩ := h.pointer n bytes hget
    exact ⟨l, g, hlast.concat id id, mem_index_set.2 (.inr hindex), hbytes⟩
  · exact (h.payload.mono (payloads_subset ops _)).putForest bid focus d tagged f

theorem Recalls.dropBooks (h : Recalls locale ops c) (bids : List PageId) :
    Recalls locale (ops ++ [.dropBooks bids]) (bids.foldl dropBook c) := by
  constructor
  · intro n bytes hget
    obtain ⟨hbefore, hkept⟩ := get?_of_dropBooks hget
    obtain ⟨l, f, hlast, hindex, hbytes⟩ := h.pointer n bytes hbefore
    have hbid : l.bid ∉ bids := fun hmem => hkept _ hmem hindex
    refine ⟨l, f, hlast.concat id hbid, mem_index_dropBooks hindex ?_, hbytes⟩
    exact fun b hb htag => hbid (bookTag_injective htag ▸ hb)
  · exact (h.payload.mono (payloads_subset ops _)).of_get?
      fun _ _ hget => (get?_of_dropBooks hget).1

theorem Recalls.remove (h : Recalls locale ops c) (key : String) :
    Recalls locale (ops ++ [.remove key]) (c.remove key) := by
  constructor
  · intro n bytes hget
    obtain ⟨l, f, hlast, hindex, hbytes⟩ := h.pointer n bytes (get?_of_remove hget)
    exact ⟨l, f, hlast.concat id id, hindex, hbytes⟩
  · exact (h.payload.mono (payloads_subset ops _)).of_get? fun _ _ => get?_of_remove

theorem Recalls.putSubtree (h : Recalls locale ops c) (l : Link) (f : BookForest) :
    Recalls locale (ops ++ [.putSubtree l f]) (c.putSubtree locale l f) := by
  constructor
  · intro n bytes hget
    rw [get?_putSubtree_pointer] at hget
    split at hget
    · next hn =>
      cases hget
      subst hn
      exact ⟨l, f, lastPut_self ops l f, mem_index_putSubtree_self, rfl⟩
    · next hn =>
      obtain ⟨k, g, hlast, hindex, hbytes⟩ := h.pointer n bytes hget
      exact ⟨k, g, hlast.concat (Ne.symm hn) id, mem_index_putSubtree hindex, hbytes⟩
  · refine (h.payload.mono (payloads_subset ops _)).putSubtree l ?_
    rw [List.filterMap_append]
    exact List.mem_append_right _ List.mem_cons_self

theorem Recalls.apply (h : Recalls locale ops c) (op : Operation) :
    Recalls locale (ops ++ [op]) (op.apply locale c) := by
  cases op with
  | putSubtree l f => exact h.putSubtree l f
  | putForest bid focus d tagged f => exact h.putForest bid focus d tagged f
  | dropBooks bids => exact h.dropBooks bids
  | remove key => exact h.remove key

theorem recalls_after (locale : String) (ops : List Operation) :
    Recalls locale ops (after locale ops) := by
  induction ops using List.reverseRecOn with
  | nil => exact recalls_empty locale
  | append_singleton ops op ih =>
    rw [after, List.foldl_concat]
    exact ih.apply op

end Recalls

section Told

variable {locale : String} {ops : List Operation} {n : PageId} {l : Link} {f : BookForest}

theorem decode?_encode_iff (h : f.All fun item => item.link.depth ≤ Word.maxUnsigned32) :
    BookForest.decode? f.encode = if f.height ≤ 62 then some f else none := by
  split
  · next hfits => exact BookForest.decode?_encode f h hfits
  · next hdeep => exact BookForest.decode?_encode_of_lt h (Nat.lt_of_not_le hdeep)

/-- What is under the digest of a forest that was put for a page is that forest. -/
theorem eq_encode_of_get? (hfree : Manager.CollisionFree (ops.filterMap Operation.payload?))
    (hmem : .putSubtree l f ∈ ops) {bytes : Bytes}
    (hget : (after locale ops).get? (payloadKey f.encode) = some bytes) : bytes = f.encode := by
  obtain ⟨hbytes, hkey⟩ := (recalls_after locale ops).payload _ _ hget
  exact hfree _ hbytes _ (List.mem_filterMap.2 ⟨_, hmem, rfl⟩) (payloadKey_injective hkey)

/-- Whatever was done with a cache that was empty at first, with forests of pages no two of which
share a digest: the forest that is found for a page is the last one put for it, and the book of the
link it was put with has not been dropped since. Right after it was put it is found, unless it has
more levels than are read back. -/
theorem subtreeOf_after (locale : String) (ops : List Operation)
    (hdepths : ∀ op ∈ ops, op.Encodable)
    (hfree : Manager.CollisionFree (ops.filterMap Operation.payload?)) :
    (∀ n f, ((after locale ops).subtreeOf locale n).1 = some f → ∃ l, LastPut ops n l f) ∧
      ∀ before l f, ops = before ++ [.putSubtree l f] →
        ((after locale ops).subtreeOf locale l.nid).1 = if f.height ≤ 62 then some f else none := by
  constructor
  · intro n f hfound
    cases hpointer : (after locale ops).get? (pointerKey locale n) with
    | none =>
      simp only [subtreeOf, hpointer] at hfound
      cases hfound
    | some pointer =>
      obtain ⟨l, g, hlast, _, rfl⟩ := (recalls_after locale ops).pointer n pointer hpointer
      rw [subtreeOf_of_pointer hpointer, forestAt_fst] at hfound
      obtain ⟨bytes, hget, hdecode⟩ := Option.bind_eq_some_iff.1 hfound
      rw [eq_encode_of_get? hfree hlast.mem hget, decode?_encode_iff (hdepths _ hlast.mem)]
        at hdecode
      split at hdecode
      · cases hdecode
        exact ⟨l, hlast⟩
      · cases hdecode
  · rintro before l f rfl
    have hmem : .putSubtree l f ∈ before ++ [.putSubtree l f] :=
      List.mem_append_right _ List.mem_cons_self
    have hlast : after locale (before ++ [.putSubtree l f]) =
        (after locale before).putSubtree locale l f := List.foldl_concat ..
    have hpointer : (after locale (before ++ [.putSubtree l f])).get? (pointerKey locale l.nid) =
        some (Text.utf8 (payloadKey f.encode)) := by
      rw [hlast, get?_putSubtree_pointer, if_pos rfl]
    have hpayload : (after locale (before ++ [.putSubtree l f])).get? (payloadKey f.encode) =
        some f.encode := by
      cases hget : (after locale (before ++ [.putSubtree l f])).get? (payloadKey f.encode) with
      | none => simp [hlast, get?_putSubtree_payload] at hget
      | some bytes => rw [eq_encode_of_get? hfree hmem hget]
    rw [subtreeOf_of_pointer hpointer, forestAt_fst, hpayload, Option.bind_some,
      decode?_encode_iff (hdepths _ hmem)]

/-- The forest of a page without children. -/
def leaf : BookForest := .cons ⟨.along [1, 2] false 0, none, false⟩ .nil .nil

/-- Pages of two books share a payload, which goes with the first book and comes back with another
page of it. -/
def revived : List Operation :=
  [.putSubtree (.along [1, 2] false 0) leaf, .putSubtree (.along [3, 4] false 0) leaf,
    .dropBooks [1], .remove (bookKey "en" 3 0 none), .putSubtree (.along [1, 5] false 0) leaf]

/-- The page that brought the payload back is found, and the page of the other book is told nothing
but what was put for it. -/
theorem subtreeOf_after_revived :
    ((∀ op ∈ revived, op.Encodable) ∧
      Manager.CollisionFree (revived.filterMap Operation.payload?)) ∧
    ((after "en" revived).subtreeOf "en" 5).1 = some leaf ∧
    ∀ f, ((after "en" revived).subtreeOf "en" 4).1 = some f → f = leaf := by
  have hleaf : leaf.All fun item => item.link.depth ≤ Word.maxUnsigned32 :=
    ⟨by decide, trivial, trivial⟩
  have hdepths : ∀ op ∈ revived, op.Encodable := by
    simp [revived, Operation.Encodable, hleaf]
  have hfree : Manager.CollisionFree (revived.filterMap Operation.payload?) := by
    intro p hp q hq _
    simp only [revived, List.filterMap_cons, Operation.payload?, List.filterMap_nil,
      List.mem_cons, List.not_mem_nil, or_false, or_self] at hp hq
    rw [hp, hq]
  obtain ⟨hfound, hput⟩ := subtreeOf_after "en" revived hdepths hfree
  refine ⟨⟨hdepths, hfree⟩, ?_, fun f hf => ?_⟩
  · exact hput (revived.take 4) (.along [1, 5] false 0) leaf rfl
  · obtain ⟨l, hlast⟩ := hfound 4 f hf
    have hmem := hlast.mem
    simp only [revived, List.mem_cons, List.not_mem_nil, or_false, Operation.putSubtree.injEq,
      reduceCtorEq, false_or] at hmem
    rcases hmem with ⟨_, h⟩ | ⟨_, h⟩ | ⟨_, h⟩ <;> exact h

end Told

end Outline.Cache
