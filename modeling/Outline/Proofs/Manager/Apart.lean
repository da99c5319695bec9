import Outline.Proofs.Arrange.Apart
import Outline.Proofs.Manager.Moves

/-!
Two moves in different books, in either order.
-/
namespace Outline.Manager
set_option autoImplicit false

variable {m : Manager} {n₁ p₁ n₂ p₂ : PageId}

/-- After a move in other books, a move comes to what it came to before. -/
theorem outcome_move_of_apart (h : m.table.Whole) (hm : m.inTransaction = false)
    (hapart : (m.table.booksOf n₁ p₁).Disjoint (m.table.booksOf n₂ p₂)) (w₁ w₂ : Option Int32) :
    outcome (move n₂ p₂ w₂) (after (move n₁ p₁ w₁) m) = outcome (move n₂ p₂ w₂) m := by
  obtain ⟨hends, hout⟩ := moveEnds_after h.sound hm n₁ p₁ w₁
  have hafter := hends.whole h
  rw [outcome_move hafter.sound hout, outcome_move h.sound hm,
    (hends.alikeFor h hapart).verdict_eq h.sound hafter.sound]

theorem after_move_comm (h : m.table.Whole) (hm : m.inTransaction = false)
    (hapart : (m.table.booksOf n₁ p₁).Disjoint (m.table.booksOf n₂ p₂)) (w₁ w₂ : Option Int32) :
    (after (move n₂ p₂ w₂) (after (move n₁ p₁ w₁) m)).table =
      (after (move n₁ p₁ w₁) (after (move n₂ p₂ w₂) m)).table := by
  obtain ⟨hends₁, hout₁⟩ := moveEnds_after h.sound hm n₁ p₁ w₁
  obtain ⟨hends₂, hout₂⟩ := moveEnds_after h.sound hm n₂ p₂ w₂
  have h₁ := hends₁.whole h
  have h₂ := hends₂.whole h
  obtain ⟨hends₁₂, _⟩ := moveEnds_after h₁.sound hout₁ n₂ p₂ w₂
  obtain ⟨hends₂₁, _⟩ := moveEnds_after h₂.sound hout₂ n₁ p₁ w₁
  rw [(hends₁.alikeFor h hapart).verdict_eq h.sound h₁.sound] at hends₁₂
  rw [(hends₂.alikeFor h (List.disjoint_symm hapart)).verdict_eq h.sound h₂.sound] at hends₂₁
  exact hends₁.comm hends₂ hends₁₂ hends₂₁ h hapart

theorem outcome_of_inside (hm : m.inTransaction = true) (nid pid : PageId)
    (weight : Option Int32) :
    outcome (move nid pid weight) m = .error (.storeUnavailable (.engine .nestedTransaction)) ∧
      (after (move nid pid weight) m).inTransaction = true ∧
      (after (move nid pid weight) m).table = m.table := by
  obtain ⟨events, hrun⟩ := move_inside hm nid pid weight
  rw [outcome, after, hrun]
  exact ⟨rfl, hm, rfl⟩

/-- In a consistent table two moves come to the same and leave the same table in either order, when
the books of the one page and its new parent are other ones than those of the other page and its new
parent, whether the moves are made or refused, and also when they start books. -/
theorem moves_comm (m : Manager) (h : m.table.Consistent) (n₁ p₁ n₂ p₂ : PageId)
    (hapart : (m.table.booksOf n₁ p₁).Disjoint (m.table.booksOf n₂ p₂)) (w₁ w₂ : Option Int32) :
    outcome (move n₂ p₂ w₂) (after (move n₁ p₁ w₁) m) = outcome (move n₂ p₂ w₂) m ∧
      outcome (move n₁ p₁ w₁) (after (move n₂ p₂ w₂) m) = outcome (move n₁ p₁ w₁) m ∧
      (after (move n₂ p₂ w₂) (after (move n₁ p₁ w₁) m)).table =
        (after (move n₁ p₁ w₁) (after (move n₂ p₂ w₂) m)).table := by
  have hw := h.whole
  cases hm : m.inTransaction with
  | false =>
    exact ⟨outcome_move_of_apart hw hm hapart w₁ w₂,
      outcome_move_of_apart hw hm (List.disjoint_symm hapart) w₂ w₁,
      after_move_comm hw hm hapart w₁ w₂⟩
  | true =>
    obtain ⟨hout₁, hin₁, hkept₁⟩ := outcome_of_inside hm n₁ p₁ w₁
    obtain ⟨hout₂, hin₂, hkept₂⟩ := outcome_of_inside hm n₂ p₂ w₂
    obtain ⟨hout₁₂, _, hkept₁₂⟩ := outcome_of_inside hin₁ n₂ p₂ w₂
    obtain ⟨hout₂₁, _, hkept₂₁⟩ := outcome_of_inside hin₂ n₁ p₁ w₁
    rw [hout₁₂, hout₂₁, hout₁, hout₂, hkept₁₂, hkept₂₁, hkept₁, hkept₂]
    exact ⟨rfl, rfl, rfl⟩

/-- A book with a page that has a child and one that has none, and two smaller books. -/
def threeBooks : Manager where
  table := [.ofLink (.along [1] true 0), .ofLink (.along [1, 2] true 3),
    .ofLink (.along [1, 2, 3] false 0), .ofLink (.along [1, 6] false 0),
    .ofLink (.along [8] true 0), .ofLink (.along [8, 9] false 7),
    .ofLink (.along [20] false 0)].foldl Table.put .empty

/-- A page with a child starts a book, and a page of the second book moves into the third. -/
theorem moves_comm_threeBooks :
    (threeBooks.table.Consistent ∧
      (threeBooks.table.booksOf 2 0).Disjoint (threeBooks.table.booksOf 9 20)) ∧
    outcome (move 9 20 none) (after (move 2 0 (some 5)) threeBooks) =
      .ok (.along [20, 9] false 7) ∧
    outcome (move 2 0 (some 5)) (after (move 9 20 none) threeBooks) = .ok (.along [2] true 5) ∧
    (after (move 9 20 none) (after (move 2 0 (some 5)) threeBooks)).table =
      (after (move 2 0 (some 5)) (after (move 9 20 none) threeBooks)).table := by
  have hconsistent : threeBooks.table.Consistent := by decide +kernel
  have hfirst : threeBooks.table.booksOf 2 0 = [1] := by decide +kernel
  have hsecond : threeBooks.table.booksOf 9 20 = [8, 20] := by decide +kernel
  have hapart : (threeBooks.table.booksOf 2 0).Disjoint (threeBooks.table.booksOf 9 20) := by
    rw [hfirst, hsecond]
    simp
  obtain ⟨hout₂, hout₁, htable⟩ := moves_comm threeBooks hconsistent 2 0 9 20 hapart (some 5) none
  refine ⟨⟨hconsistent, hapart⟩, hout₂.trans ?_, hout₁.trans ?_, htable⟩
  · cbv
  · cbv

end Outline.Manager
