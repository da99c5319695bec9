import Outline.Proofs.Cache.Entries
import Outline.Proofs.Cache.Keys

/-!
What is in a cache after the forest of a page was put there: a pointer under the page's key, and the
forest under its digest, unless something is there already.
-/
namespace Outline.Cache
set_option autoImplicit false

variable {c : Cache} {locale key : String} {l : Link} {f : BookForest} {bid n : PageId}
  {d : Option Nat}

theorem get?_putSubtree_of_ne (hpointer : key ≠ pointerKey locale l.nid)
    (hpayload : key ≠ payloadKey f.encode) :
    (c.putSubtree locale l f).get? key = c.get? key := by
  unfold putSubtree
  simp only [get?_set, if_neg hpointer]
  split
  · rfl
  · rw [get?_set, if_neg hpayload]

theorem get?_putSubtree_pointer :
    (c.putSubtree locale l f).get? (pointerKey locale n) =
      if n = l.nid then some (Text.utf8 (payloadKey f.encode))
      else c.get? (pointerKey locale n) := by
  split
  · next h =>
    subst h
    unfold putSubtree
    simp only [get?_set, if_pos]
  · next h =>
    exact get?_putSubtree_of_ne (mt pointerKey_injective h) (pointerKey_ne_payloadKey _)

/-- What is under a digest already stays. -/
theorem get?_putSubtree_payload (p : Bytes) :
    (c.putSubtree locale l f).get? (payloadKey p) =
      (c.get? (payloadKey p)).or
        (if payloadKey p = payloadKey f.encode then some f.encode else none) := by
  have hpointer : payloadKey p ≠ pointerKey locale l.nid := Ne.symm (pointerKey_ne_payloadKey p)
  split
  · next h =>
    unfold putSubtree
    simp only [get?_set, if_neg hpointer, ← h, contains]
    split
    · next hthere =>
      obtain ⟨bytes, hbytes⟩ := Option.isSome_iff_exists.1 hthere
      rw [hbytes, Option.some_or]
    · next hmissing =>
      rw [get?_set, if_pos rfl, Option.not_isSome_iff_eq_none.1 hmissing, Option.none_or]
  · next h => rw [get?_putSubtree_of_ne hpointer h, Option.or_none]

theorem get?_putSubtree_bookKey :
    (c.putSubtree locale l f).get? (bookKey locale bid n d) = c.get? (bookKey locale bid n d) :=
  get?_putSubtree_of_ne bookKey_ne_pointerKey (bookKey_ne_payloadKey _)

theorem mem_index_putSubtree {tag : String} (h : (tag, key) ∈ c.index) :
    (tag, key) ∈ (c.putSubtree locale l f).index := by
  unfold putSubtree
  simp only [mem_index_set]
  split
  · exact .inr h
  · exact .inr (mem_index_set.2 (.inr h))

theorem mem_index_putSubtree_self :
    (bookTag l.bid, pointerKey locale l.nid) ∈ (c.putSubtree locale l f).index := by
  unfold putSubtree
  exact mem_index_set.2 (.inl ⟨rfl, rfl⟩)

theorem get?_remove {key' : String} :
    (c.remove key).get? key' = if key' = key then none else c.get? key' := by
  unfold get? remove
  rw [List.find?_filter]
  split
  · next h =>
    rw [Option.map_eq_none_iff, List.find?_eq_none]
    intro entry _
    simp [h]
  · next h =>
    congr 2
    funext entry
    by_cases hentry : entry.1 = key'
    · simp [hentry, h]
    · simp [hentry]

theorem get?_of_remove {key' : String} {bytes : Bytes}
    (h : (c.remove key).get? key' = some bytes) : c.get? key' = some bytes := by
  rw [get?_remove] at h
  split at h
  · cases h
  · exact h

/-- Whether all that is kept under digests is among some payloads, each under its own digest. -/
def HoldsPayloads (payloads : List Bytes) (c : Cache) : Prop :=
  ∀ p bytes, c.get? (payloadKey p) = some bytes →
    bytes ∈ payloads ∧ payloadKey bytes = payloadKey p

section HoldsPayloads

variable {c' : Cache} {payloads payloads' : List Bytes}

theorem HoldsPayloads.mono (h : HoldsPayloads payloads c) (hsub : payloads ⊆ payloads') :
    HoldsPayloads payloads' c := fun p bytes hget => (h p bytes hget).imp_left (hsub ·)

theorem HoldsPayloads.of_get? (h : HoldsPayloads payloads c)
    (hget : ∀ key bytes, c'.get? key = some bytes → c.get? key = some bytes) :
    HoldsPayloads payloads c' := fun p bytes hp => h p bytes (hget _ _ hp)

theorem HoldsPayloads.putForest (h : HoldsPayloads payloads c) (bid n : PageId) (d : Option Nat)
    (tagged : PageId) (f : BookForest) :
    HoldsPayloads payloads (c.putForest (bookKey locale bid n d) tagged f) := by
  intro p bytes hget
  rw [Cache.putForest, get?_set, if_neg (Ne.symm (bookKey_ne_payloadKey p))] at hget
  exact h p bytes hget

theorem HoldsPayloads.putSubtree (h : HoldsPayloads payloads c) (l : Link)
    (hf : f.encode ∈ payloads) : HoldsPayloads payloads (c.putSubtree locale l f) := by
  intro p bytes hget
  rw [get?_putSubtree_payload, Option.or_eq_some_iff] at hget
  rcases hget with hget | ⟨_, hget⟩
  · exact h p bytes hget
  · split at hget
    · next hkey =>
      cases hget
      exact ⟨hf, hkey.symm⟩
    · cases hget

end HoldsPayloads

/-- The forest of a page is read where its pointer says. -/
theorem subtreeOf_of_pointer {p : Bytes}
    (h : c.get? (pointerKey locale n) = some (Text.utf8 (payloadKey p))) :
    (c.subtreeOf locale n).1 = (c.forestAt (payloadKey p)).1 := by
  simp only [subtreeOf, h, Text.ofUtf8?_utf8]

end Outline.Cache
