import Outline.Proofs.Cache.Pointers
import Outline.Proofs.Cache.ReadBack
import Outline.Proofs.Forest.Preorder

/-!
Caches to which nothing with a title is added.

Forests are kept as they are made of rows, before titles are filled in. Pointers are no forests at
all: they are texts, and a forest starts with a bracket.
-/
namespace Outline
set_option autoImplicit false

theorem Text.utf8_append (s t : String) : Text.utf8 (s ++ t) = Text.utf8 s ++ Text.utf8 t := by
  rw [Text.utf8, String.toUTF8, String.toByteArray_append, ByteArray.data_append,
    Array.toList_append]
  rfl

theorem Forest.all_iff {α : Type} {p : α → Prop} {f : Forest α} :
    f.All p ↔ ∀ a ∈ f.preorder, p a := by
  induction f with
  | nil => simp [All, preorder]
  | cons item below rest ihbelow ihrest =>
    simp [All, preorder, ihbelow, ihrest, or_imp, forall_and]

/-- Forests made of rows have no titles. -/
theorem BookForest.untitled_build (active : PageId → Bool) (minDepth : Nat) (rows : List Link) :
    (build active minDepth rows).All fun item => item.title = none := by
  rw [Forest.all_iff, build, preorder_ofRows]
  intro item hitem
  obtain ⟨l, _, rfl⟩ := List.mem_map.1 hitem
  rfl

namespace Cache

variable {c c' c'' : Cache} {key : String} {bytes : Bytes} {f : BookForest}

theorem decode?_of_letter (rest : Bytes) : BookForest.decode? (0x62 :: rest) = none := by
  have hread : BookForest.read nestingLimit (0x62 :: rest) = .error .malformed := rfl
  rw [BookForest.decode?, Json.readAll, hread]

theorem decode?_pointer (p : Bytes) : BookForest.decode? (Text.utf8 (payloadKey p)) = none := by
  have hkey : Text.utf8 (payloadKey p) =
      Text.utf8 "book-links:subtree-data:" ++ Text.utf8 (Sha256.hex p) := Text.utf8_append _ _
  have hletter : Text.utf8 "book-links:subtree-data:" =
      0x62 :: Text.utf8 "ook-links:subtree-data:" := by decide +kernel
  rw [hkey, hletter]
  exact decode?_of_letter _

/-- Whether no forest with a title is read from some bytes. -/
def Untitled (bytes : Bytes) : Prop :=
  ∀ f, BookForest.decode? bytes = some f → f.All fun item => item.title = none

theorem untitled_pointer (p : Bytes) : Untitled (Text.utf8 (payloadKey p)) := by
  intro f hf
  rw [decode?_pointer] at hf
  cases hf

theorem untitled_encode (hread : BookForest.decode? f.encode = some f)
    (hf : f.All fun item => item.title = none) : Untitled f.encode := by
  intro g hg
  rw [hread] at hg
  cases hg
  exact hf

/-- Whether all that is in the second cache is in the first one too, or has no titles. -/
def AddsUntitled (c c' : Cache) : Prop :=
  ∀ key bytes, c'.get? key = some bytes → c.get? key = some bytes ∨ Untitled bytes

theorem AddsUntitled.refl (c : Cache) : c.AddsUntitled c := fun _ _ hget => .inl hget

theorem AddsUntitled.trans (h : c.AddsUntitled c') (h' : c'.AddsUntitled c'') :
    c.AddsUntitled c'' := by
  intro key bytes hget
  rcases h' key bytes hget with hget | hbytes
  · exact h key bytes hget
  · exact .inr hbytes

theorem addsUntitled_set (key : String) (tags : List String) (h : Untitled bytes) :
    c.AddsUntitled (c.set key bytes tags) := by
  intro key' bytes' hget
  rw [get?_set] at hget
  split at hget
  · cases hget
    exact .inr h
  · exact .inl hget

theorem addsUntitled_dropBooks (c : Cache) (bids : List PageId) :
    c.AddsUntitled (bids.foldl dropBook c) := fun _ _ hget => .inl (get?_of_dropBooks hget).1

theorem addsUntitled_putForest (key : String) (bid : PageId) (h : Untitled f.encode) :
    c.AddsUntitled (c.putForest key bid f) := addsUntitled_set key _ h

theorem addsUntitled_putSubtree (locale : String) (l : Link) (h : Untitled f.encode) :
    c.AddsUntitled (c.putSubtree locale l f) := by
  have hpointer := fun c : Cache => addsUntitled_set (c := c) (pointerKey locale l.nid)
    [bookTag l.bid] (untitled_pointer f.encode)
  unfold putSubtree
  simp only
  split
  · exact hpointer c
  · exact (addsUntitled_set _ _ h).trans (hpointer _)

/-- What is read from the second cache is read from the first one too, or has no titles. -/
theorem AddsUntitled.forestAt (h : c.AddsUntitled c') (hf : (c'.forestAt key).1 = some f) :
    (c.forestAt key).1 = some f ∨ f.All fun item => item.title = none := by
  rw [forestAt_fst] at hf ⊢
  obtain ⟨bytes, hget, hread⟩ := Option.bind_eq_some_iff.1 hf
  rcases h key bytes hget with hget | hbytes
  · rw [hget]
    exact .inl hread
  · exact .inr (hbytes f hread)

end Cache
end Outline
