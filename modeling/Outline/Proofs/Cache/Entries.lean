import Mathlib.Data.List.Basic
import Outline.Cache.Forests

/-!
What is in a cache after something was stored, and after books were dropped.

An entry survives the dropping of books when the index has it under none of their tags.
-/
namespace Outline.Cache
set_option autoImplicit false

variable {c : Cache} {key key' tag tag' : String} {value : Bytes} {touched : List PageId}

theorem get?_set (tags : List String) :
    (c.set key value tags).get? key' = if key' = key then some value else c.get? key' := by
  unfold get? set
  rw [List.find?_cons]
  by_cases hkey : key' = key
  · simp [hkey]
  · have hne : (key == key') = false := by simpa using Ne.symm hkey
    rw [hne, if_neg hkey, List.find?_filter]
    refine congrArg (fun f => (c.entries.find? f).map (·.2)) ?_
    funext entry
    by_cases hentry : entry.1 = key'
    · simp [hentry, hkey]
    · simp [hentry]

theorem mem_index_set_tags (tags : List String) :
    (tag', key') ∈ (c.set key value tags).index ↔
      tag' ∈ tags ∧ key' = key ∨ (tag', key') ∈ c.index := by
  have hfold : ∀ (tags : List String) (index : List (String × String)),
      (tag', key') ∈ tags.foldl (fun index tag => index.insert (tag, key)) index ↔
        tag' ∈ tags ∧ key' = key ∨ (tag', key') ∈ index := by
    intro tags
    induction tags with
    | nil => simp
    | cons tag tags ih =>
      intro index
      rw [List.foldl_cons, ih, List.mem_insert_iff, List.mem_cons, Prod.mk.injEq]
      tauto
  exact hfold tags c.index

theorem mem_index_set :
    (tag', key') ∈ (c.set key value [tag]).index ↔
      (tag' = tag ∧ key' = key) ∨ (tag', key') ∈ c.index := by
  rw [mem_index_set_tags, List.mem_singleton]

theorem get?_invalidate :
    (c.invalidate tag).get? key = if (tag, key) ∈ c.index then none else c.get? key := by
  have hcovered : key ∈ c.keysUnder tag ↔ (tag, key) ∈ c.index := by
    simp [keysUnder]
  unfold get? invalidate
  rw [List.find?_filter]
  split
  · next hmem =>
    rw [Option.map_eq_none_iff, List.find?_eq_none]
    intro entry _ hentry
    simp only [Bool.not_eq_true', beq_iff_eq, decide_eq_true_eq] at hentry
    rw [hentry.2, List.contains_iff_mem.2 (hcovered.2 hmem)] at hentry
    cases hentry.1
  · next hmem =>
    congr 2
    funext entry
    by_cases hentry : entry.1 = key
    · simp [hentry, mt hcovered.1 hmem]
    · simp [hentry]

theorem mem_index_invalidate :
    (tag', key) ∈ (c.invalidate tag).index ↔ (tag', key) ∈ c.index ∧ tag' ≠ tag := by
  simp [invalidate]

/-- What is still there after books were dropped was there before, under none of their tags. -/
theorem get?_of_dropBooks (h : (touched.foldl dropBook c).get? key = some value) :
    c.get? key = some value ∧ ∀ b ∈ touched, (bookTag b, key) ∉ c.index := by
  induction touched generalizing c with
  | nil => exact ⟨h, fun _ hb => nomatch hb⟩
  | cons b touched ih =>
    obtain ⟨hget, hindex⟩ := ih h
    rw [dropBook, get?_invalidate] at hget
    split at hget
    · cases hget
    · next hmem =>
      refine ⟨hget, ?_⟩
      intro b' hb'
      by_cases heq : bookTag b' = bookTag b
      · rw [heq]
        exact hmem
      · rcases List.mem_cons.1 hb' with rfl | hb'
        · exact absurd rfl heq
        · intro hmem'
          exact hindex b' hb' (mem_index_invalidate.2 ⟨hmem', heq⟩)

/-- Dropping books leaves the index of other tags alone. -/
theorem mem_index_dropBooks (h : (tag, key) ∈ c.index) (hother : ∀ b ∈ touched, tag ≠ bookTag b) :
    (tag, key) ∈ (touched.foldl dropBook c).index := by
  induction touched generalizing c with
  | nil => exact h
  | cons b touched ih =>
    refine ih (mem_index_invalidate.2 ⟨h, hother b List.mem_cons_self⟩) ?_
    intro b' hb'
    exact hother b' (List.mem_cons_of_mem _ hb')

end Outline.Cache
