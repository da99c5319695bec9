import Outline.Proofs.Link.Sound

/-!
Chains rebased more than once.

Rebasing keeps what a chain holds from a depth on, as far as nine levels have room for it below the
new path. While nothing is cut off, only the last of two rebasings counts, and a chain can be put
back under the path that it had. A chain that has lost an id cannot.
-/
namespace Outline.Chain
set_option autoImplicit false

variable {c : Chain} {ids rest path : List PageId} {oldDepth length room : Nat}

/-- Whether every id that a chain holds from a depth on has a level below a path of some length. -/
def FitsBelow (c : Chain) (oldDepth length : Nat) : Prop :=
  ∀ i (hi : i < c.toList.length), oldDepth ≤ i → c.toList[i] ≠ 0 →
    i - oldDepth < maxDepth - length

instance (c : Chain) (oldDepth length : Nat) : Decidable (c.FitsBelow oldDepth length) :=
  inferInstanceAs (Decidable (∀ i (_ : i < c.toList.length), _))

theorem fitsBelow_iff : c.FitsBelow oldDepth length ↔
    ∀ id ∈ (c.toList.drop oldDepth).drop (maxDepth - length), id = 0 := by
  rw [List.drop_drop]
  constructor
  · intro h id hid
    obtain ⟨k, hk, rfl⟩ := List.mem_iff_getElem.1 hid
    rw [List.getElem_drop]
    by_contra hne
    have := h _ _ (by omega) hne
    omega
  · intro h i hi hold hne
    by_contra hfar
    have hindex : oldDepth + (maxDepth - length) + (i - (oldDepth + (maxDepth - length))) = i := by
      omega
    refine hne (h _ (List.mem_iff_getElem.2 ⟨i - (oldDepth + (maxDepth - length)), ?_, ?_⟩))
    · rw [List.length_drop]
      omega
    · simp only [List.getElem_drop, hindex]

theorem toList_rebase (c : Chain) (path : List PageId) (oldDepth : Nat) :
    (c.rebase path oldDepth).toList =
      (path ++ (c.toList.drop oldDepth ++ List.replicate maxDepth 0)).take maxDepth := by
  rw [rebase, ofList, Levels.toList_ofList, List.append_assoc]

/-- What a rebased chain holds below the new path. -/
theorem drop_toList_rebase (c : Chain) (path : List PageId) (oldDepth : Nat) :
    (c.rebase path oldDepth).toList.drop path.length =
      (c.toList.drop oldDepth ++ List.replicate maxDepth 0).take (maxDepth - path.length) := by
  rw [toList_rebase, List.drop_take, List.drop_left]

/-- What is cut off a list of ids makes no difference to its chain when it is all zeros. -/
theorem ofList_append_take (h : ∀ id ∈ rest.drop room, id = 0) :
    ofList (ids ++ rest.take room) = ofList (ids ++ rest) := by
  have hz : rest.drop room = List.replicate (rest.drop room).length 0 :=
    List.eq_replicate_iff.2 ⟨rfl, h⟩
  calc ofList (ids ++ rest.take room)
      = ofList (ids ++ rest.take room ++ rest.drop room) := by rw [hz, ofList_append_zeros]
    _ = ofList (ids ++ rest) := by rw [List.append_assoc, List.take_append_drop]

/-- A rebasing in which everything fits is forgotten by the next. -/
theorem FitsBelow.rebase_rebase (h : c.FitsBelow oldDepth path.length) (next : List PageId) :
    (c.rebase path oldDepth).rebase next path.length = c.rebase next oldDepth := by
  have hcut : ∀ id ∈ (c.toList.drop oldDepth ++ List.replicate maxDepth 0).drop
      (maxDepth - path.length), id = 0 := by
    intro id hid
    rw [List.drop_append, List.mem_append] at hid
    rcases hid with hid | hid
    · exact fitsBelow_iff.1 h id hid
    · exact List.eq_of_mem_replicate (List.mem_of_mem_drop hid)
  rw [rebase, drop_toList_rebase, ofList_append_take hcut, ← List.append_assoc, ofList_append_zeros,
    rebase]

/-- A chain that is put under the path that it has stays as it is. -/
theorem rebase_own_path (c : Chain) (oldDepth : Nat) :
    c.rebase (c.toList.take oldDepth) oldDepth = c := by
  rw [rebase, List.take_append_drop, ofList, Levels.ofList_toList]

/-- A chain can be put back under its own path exactly when it has lost nothing. -/
theorem rebase_back_iff (c : Chain) (path : List PageId) (oldDepth : Nat) :
    (c.rebase path oldDepth).rebase (c.toList.take oldDepth) path.length = c ↔
      c.FitsBelow oldDepth path.length := by
  refine ⟨fun h i hi hold hne => ?_, fun h => ?_⟩
  · -- Behind the levels that were left for it, a chain that came back holds zeros.
    by_contra hfar
    have hlast : c.toList[i]? = some 0 := by
      rw [c.length_toList] at hi
      rw [← h, toList_rebase, drop_toList_rebase, List.getElem?_take_of_lt hi,
        List.getElem?_append_right ?_, List.getElem?_append_right ?_,
        List.getElem?_replicate_of_lt ?_]
      all_goals
        simp only [List.length_take, List.length_append, List.length_drop, List.length_replicate,
          c.length_toList]
        omega
    rw [List.getElem?_eq_getElem hi, Option.some.injEq] at hlast
    exact hne hlast
  · rw [h.rebase_rebase, rebase_own_path]

/-- When every id from a depth on fits below a path, a chain can be rebased under the path and from
there under any other as if it had never been under the first. Put back under its own, it is the
chain that it was. -/
theorem rebase_again (c : Chain) (path next : List PageId) (oldDepth : Nat)
    (h : c.FitsBelow oldDepth path.length) :
    (c.rebase path oldDepth).rebase next path.length = c.rebase next oldDepth ∧
      (c.rebase path oldDepth).rebase (c.toList.take oldDepth) path.length = c :=
  ⟨h.rebase_rebase next, (rebase_back_iff c path oldDepth).2 h⟩

/-- Two ids go down to the last two levels, up again and back. -/
theorem rebase_again_lastLevels :
    (Chain.ofList [1, 2, 3, 4]).FitsBelow 2 7 ∧
      (Chain.ofList [1, 2, 3, 4]).rebase [5, 6, 7, 8, 9, 10, 2] 2 =
        Chain.ofList [5, 6, 7, 8, 9, 10, 2, 3, 4] ∧
      (Chain.ofList [5, 6, 7, 8, 9, 10, 2, 3, 4]).rebase [2] 7 = Chain.ofList [2, 3, 4] ∧
      (Chain.ofList [5, 6, 7, 8, 9, 10, 2, 3, 4]).rebase [1, 2] 7 = Chain.ofList [1, 2, 3, 4] := by
  have hdown : (Chain.ofList [1, 2, 3, 4]).rebase [5, 6, 7, 8, 9, 10, 2] 2 =
      Chain.ofList [5, 6, 7, 8, 9, 10, 2, 3, 4] := by decide
  have h := rebase_again (Chain.ofList [1, 2, 3, 4]) [5, 6, 7, 8, 9, 10, 2] [2] 2 (by decide)
  rw [hdown] at h
  exact ⟨by decide, hdown, h.1, h.2⟩

/-- Under a path of eight pages the second id is lost, and the chain does not come back. -/
example : ¬ (Chain.ofList [1, 2, 3, 4]).FitsBelow 2 8 := by decide

end Outline.Chain
