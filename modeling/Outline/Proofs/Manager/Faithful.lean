import Outline.Proofs.Cache.Pointers
import Outline.Proofs.Forest.RoundTrip
import Outline.Proofs.Manager.Focus

/-!
Caches that tell the same as the rows.

An entry for a book is the forest that would be made now. A pointer names the forest that would be
made now below its page, and whatever is kept under a digest has that digest. Each such entry goes
with the tag of the one book it depends on.
-/
namespace Outline.Manager
set_option autoImplicit false

/-- Whether a forest would be wanted of a table: pages in focus are stored, and a limit is not zero,
which has the key of no limit. -/
def Wanted.Proper (t : Table) : Wanted → Prop
  | .book _ focus d => (∀ l ∈ focus, t.stored? l.nid = some l) ∧ d ≠ some 0
  | .below l => t.stored? l.nid = some l

/-- Whether a read asks for any levels. -/
def Read.AsksForLevels : Read → Prop
  | .forest _ _ d _ => d ≠ some 0
  | _ => True

instance : ∀ r : Read, Decidable r.AsksForLevels
  | .forest _ _ d _ => inferInstanceAs (Decidable (d ≠ some 0))
  | .link .. | .links .. | .books .. | .around .. | .subtree .. | .contents .. | .deepestParent .. =>
    isTrue trivial

/-- A cache over a table whose payloads are all among the given ones. -/
structure Faithful (locale : String) (t : Table) (payloads : List Bytes) (c : Cache) : Prop where
  book : ∀ bid n d bytes, d ≠ some 0 → c.get? (Cache.bookKey locale bid n d) = some bytes →
    (Cache.bookTag bid, Cache.bookKey locale bid n d) ∈ c.index ∧ bytes = (around t bid n d).encode
  pointer : ∀ n bytes, c.get? (Cache.pointerKey locale n) = some bytes →
    ∃ l, t.stored? n = some l ∧ (Cache.bookTag l.bid, Cache.pointerKey locale n) ∈ c.index ∧
      ((Wanted.below l).fresh t).encode ∈ payloads ∧
      bytes = Text.utf8 (Cache.payloadKey ((Wanted.below l).fresh t).encode)
  payload : ∀ p bytes, c.get? (Cache.payloadKey p) = some bytes →
    bytes ∈ payloads ∧ Cache.payloadKey bytes = Cache.payloadKey p

/-- Whether payloads of one digest are one payload. -/
def CollisionFree (payloads : List Bytes) : Prop :=
  ∀ p ∈ payloads, ∀ q ∈ payloads, Sha256.hex p = Sha256.hex q → p = q

section Decoding

variable {t : Table}

/-- A forest made from rows is read back from its bytes. -/
theorem decode?_encode_build (h : t.Sound) (active : PageId → Bool) (minDepth : Nat) (q : Query) :
    BookForest.decode? (BookForest.build active minDepth (t.chosen q)).encode =
      some (BookForest.build active minDepth (t.chosen q)) := by
  refine BookForest.decode?_encode_build (fun l hl => ?_) active minDepth
  have hs := (h.of_stored? ((Table.mem_chosen h).1 hl).1).1
  exact ⟨hs.depth_pos, hs.depth_le⟩

theorem decode?_encode_fresh (h : t.Sound) (w : Wanted) :
    BookForest.decode? (w.fresh t).encode = some (w.fresh t) := by
  cases w <;> exact decode?_encode_build h _ _ _

end Decoding

section Faithful

variable {locale : String} {t t' : Table} {payloads : List Bytes} {c : Cache}
  {touched : List PageId} {bid n : PageId} {l : Link} {d : Option Nat}

theorem faithful_empty (locale : String) (t : Table) (payloads : List Bytes) :
    Faithful locale t payloads .empty := by
  constructor
  · intro bid n d bytes hd hget
    cases hget
  · intro n bytes hget
    cases hget
  · intro p bytes hget
    cases hget

/-- An entry that goes with the tag of a book is dropped with the book. -/
theorem not_mem_of_survives {key : String} {bytes : Bytes}
    (hget : (touched.foldl Cache.dropBook c).get? key = some bytes)
    (hindex : (Cache.bookTag bid, key) ∈ c.index) : bid ∉ touched :=
  fun hmem => (Cache.get?_of_dropBooks hget).2 bid hmem hindex

theorem mem_index_of_survives {key : String} (hbid : bid ∉ touched)
    (hindex : (Cache.bookTag bid, key) ∈ c.index) :
    (Cache.bookTag bid, key) ∈ (touched.foldl Cache.dropBook c).index := by
  refine Cache.mem_index_dropBooks hindex ?_
  intro b hb htag
  rw [Cache.bookTag_injective htag] at hbid
  exact hbid hb

/-- A cache stays faithful when all books are dropped whose links have changed. -/
theorem Faithful.dropBooks (hc : Faithful locale t payloads c) (h : t.Sound) (h' : t'.Sound)
    (ha : ∀ b, b ∉ touched → t.AgreeOn b t') :
    Faithful locale t' payloads (touched.foldl Cache.dropBook c) := by
  constructor
  · intro bid n d bytes hd hget
    obtain ⟨hindex, hbytes⟩ := hc.book bid n d bytes hd (Cache.get?_of_dropBooks hget).1
    have hbid := not_mem_of_survives hget hindex
    exact ⟨mem_index_of_survives hbid hindex, by rw [hbytes, around_congr (ha bid hbid) h h']⟩
  · intro n bytes hget
    obtain ⟨l, hl, hindex, hmem, hbytes⟩ := hc.pointer n bytes (Cache.get?_of_dropBooks hget).1
    have hbid := not_mem_of_survives hget hindex
    have hfresh := fresh_below_congr (ha l.bid hbid) h h'
    rw [hfresh] at hmem hbytes
    exact ⟨l, (ha l.bid hbid).stored?_eq h hl rfl, mem_index_of_survives hbid hindex, hmem, hbytes⟩
  · exact Cache.HoldsPayloads.of_get? hc.payload fun _ _ hget => (Cache.get?_of_dropBooks hget).1

theorem limit_injective {d d' : Option Nat} (hd : d ≠ some 0) (hd' : d' ≠ some 0)
    (h : d.getD 0 = d'.getD 0) : d = d' := by
  cases d <;> cases d' <;> simp_all

theorem Faithful.putForest (hc : Faithful locale t payloads c) (bid n : PageId) (hd : d ≠ some 0) :
    Faithful locale t payloads
      (c.putForest (Cache.bookKey locale bid n d) bid (around t bid n d)) := by
  constructor
  · intro bid' n' d' bytes hd' hget
    rw [Cache.putForest, Cache.get?_set] at hget
    split at hget
    · next hkey =>
      cases hget
      obtain ⟨rfl, rfl, hlimit⟩ := Cache.bookKey_injective hkey
      obtain rfl := limit_injective hd' hd hlimit
      exact ⟨Cache.mem_index_set.2 (.inl ⟨rfl, rfl⟩), rfl⟩
    · obtain ⟨hindex, hbytes⟩ := hc.book bid' n' d' bytes hd' hget
      exact ⟨Cache.mem_index_set.2 (.inr hindex), hbytes⟩
  · intro n' bytes hget
    rw [Cache.putForest, Cache.get?_set, if_neg (Ne.symm Cache.bookKey_ne_pointerKey)] at hget
    obtain ⟨l, hl, hindex, hrest⟩ := hc.pointer n' bytes hget
    exact ⟨l, hl, Cache.mem_index_set.2 (.inr hindex), hrest⟩
  · exact Cache.HoldsPayloads.putForest hc.payload bid n d bid (around t bid n d)

theorem Faithful.putSubtree (hc : Faithful locale t payloads c) (hl : t.stored? l.nid = some l)
    (hp : ((Wanted.below l).fresh t).encode ∈ payloads) :
    Faithful locale t payloads (c.putSubtree locale l ((Wanted.below l).fresh t)) := by
  constructor
  · intro bid' n' d' bytes hd' hget
    rw [Cache.get?_putSubtree_bookKey] at hget
    exact (hc.book bid' n' d' bytes hd' hget).imp_left Cache.mem_index_putSubtree
  · intro n' bytes hget
    rw [Cache.get?_putSubtree_pointer] at hget
    split at hget
    · next hn =>
      cases hget
      subst hn
      exact ⟨l, hl, Cache.mem_index_putSubtree_self, hp, rfl⟩
    · obtain ⟨k, hk, hindex, hrest⟩ := hc.pointer n' bytes hget
      exact ⟨k, hk, Cache.mem_index_putSubtree hindex, hrest⟩
  · exact Cache.HoldsPayloads.putSubtree hc.payload l hp

/-- What a faithful cache holds for a book is what the rows give. -/
theorem Faithful.forestAt (hc : Faithful locale t payloads c) (h : t.Whole) {focus : Option Link}
    (hfocus : ∀ l ∈ focus, t.stored? l.nid = some l) (hd : d ≠ some 0) {f : BookForest}
    (hf : (c.forestAt (Cache.bookKey locale bid ((focus.map Link.nid).getD 0) d)).1 = some f) :
    f = (Wanted.book bid focus d).fresh t := by
  unfold Cache.forestAt at hf
  split at hf
  · cases hf
  · next bytes hget =>
    have hbytes := (hc.book bid _ d bytes hd hget).2
    rw [← fresh_eq_around h hfocus] at hbytes
    rw [hbytes, decode?_encode_fresh h.sound] at hf
    exact (Option.some.inj hf).symm

theorem Faithful.subtreeOf (hc : Faithful locale t payloads c) (h : t.Sound)
    (hfree : CollisionFree payloads) (hl : t.stored? l.nid = some l) {f : BookForest}
    (hf : (c.subtreeOf locale l.nid).1 = some f) : f = (Wanted.below l).fresh t := by
  unfold Cache.subtreeOf at hf
  cases hpointer : c.get? (Cache.pointerKey locale l.nid) with
  | none =>
    rw [hpointer] at hf
    cases hf
  | some pointer =>
    obtain ⟨k, hk, _, hmem, rfl⟩ := hc.pointer _ _ hpointer
    rw [hl] at hk
    cases hk
    simp only [hpointer, Text.ofUtf8?_utf8, Cache.forestAt] at hf
    split at hf
    · cases hf
    · next bytes hget =>
      obtain ⟨hbytes, hkey⟩ := hc.payload _ bytes hget
      have hsame := hfree _ hbytes _ hmem (Cache.payloadKey_injective hkey)
      rw [hsame, decode?_encode_fresh h] at hf
      exact (Option.some.inj hf).symm

end Faithful

end Outline.Manager
