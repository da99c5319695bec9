import Outline.Proofs.Arrange.Seats
import Outline.Proofs.Manager.Apart
import Outline.Proofs.Manager.Relocated

/-!
Taking a move back.

A move and the one back to the old parent with the old weight leave every page the seat it had, so
they leave the table as it was, with all chains, depths, books and marks.
-/
namespace Outline.Manager
set_option autoImplicit false

variable {m m' : Manager} {old moved : Link} {nid pid : PageId} {weight : Option Int32}
  {touched : List PageId}

/-- A move that was made is one its verdict allowed, outside a transaction. -/
theorem verdict_of_move (h : m.table.Sound) (hmove : move nid pid weight m = .ok moved m') :
    ∃ touched, Arrange.verdict m.table nid pid weight = .ok (moved, touched) ∧
      Arrange.MoveEnds m.table nid pid (.ok (moved, touched)) m'.table ∧
      m'.inTransaction = false := by
  cases hm : m.inTransaction with
  | true =>
    obtain ⟨events, hrefused⟩ := move_inside hm nid pid weight
    rw [hrefused] at hmove
    cases hmove
  | false =>
    rcases move_eq h hm nid pid weight with ⟨refusal, events, _, hrun⟩ |
      ⟨made, touched, t, events, hv, hends, hrun⟩
    · rw [hrun] at hmove
      cases hmove
    · rw [hrun] at hmove
      cases hmove
      exact ⟨touched, hv, hends, hm⟩

/-- A move that its verdict allows is made. -/
theorem move_of_verdict (h : m.table.Sound) (hm : m.inTransaction = false)
    (hv : Arrange.verdict m.table nid pid weight = .ok (moved, touched)) :
    ∃ m', move nid pid weight m = .ok moved m' ∧
      Arrange.MoveEnds m.table nid pid (.ok (moved, touched)) m'.table := by
  rcases move_eq h hm nid pid weight with ⟨refusal, events, hrefused, _⟩ |
    ⟨made, touched', t, events, hmade, hends, hrun⟩
  · rw [hv] at hrefused
    cases hrefused
  · rw [hv] at hmade
    cases hmade
    exact ⟨_, hrun, hends⟩

/-- In a consistent table every move that is made can be taken back: the page can move to the parent
it had, with the weight it had, and then all rows are what they were, and the answer is the link it
had. -/
theorem move_back_restores (h : m.table.Consistent) (hs : m.table.link? nid = .ok (some old))
    (hmove : move nid pid weight m = .ok moved m') :
    ∃ m'', move nid old.pid (some old.weight) m' = .ok old m'' ∧ m''.table = m.table := by
  have hw := h.whole
  rw [Table.link?_eq hw.sound, Except.ok.injEq] at hs
  obtain ⟨_, rfl⟩ := hw.sound.of_stored? hs
  obtain ⟨touched, _, hends, hm'⟩ := verdict_of_move hw.sound hmove
  have hw' := hends.whole hw
  obtain ⟨back, touched', hv⟩ := hends.verdict_back hw hs (some old.weight)
  obtain ⟨m'', hback, hends'⟩ := move_of_verdict hw'.sound hm' hv
  have hweight := Arrange.weight_of_verdict hw'.sound (hends.stored?_page hw) hv
  have htable : m''.table = m.table := by
    refine (hends'.whole hw').eq_of_seats hw fun x => ?_
    rw [hends'.seat?_eq hw'.sound, hends.seat?_eq hw.sound, hweight]
    by_cases hx : x = old.nid
    · rw [if_pos hx, hx, Table.seat?_of_stored? hs]
      rfl
    · rw [if_neg hx, if_neg hx]
  have hanswer := hends'.stored?_page hw'
  rw [htable, hs, Option.some.injEq] at hanswer
  exact ⟨m'', by rw [hback, hanswer], htable⟩

/-- The page with two levels below it that was moved into the other book, and given a weight, moves
back. -/
theorem move_back_restores_twoShelves :
    (twoShelves.table.Consistent ∧ twoShelves.table.link? 2 = .ok (some (.along [1, 2] true 3)) ∧
      outcome (move 2 9 (some 4)) twoShelves = .ok (.along [8, 9, 2] true 4)) ∧
    ∃ m'', move 2 1 (some 3) (after (move 2 9 (some 4)) twoShelves) =
      .ok (.along [1, 2] true 3) m'' ∧ m''.table = twoShelves.table := by
  have hconsistent : twoShelves.table.Consistent := by decide +kernel
  have hlink : twoShelves.table.link? 2 = .ok (some (.along [1, 2] true 3)) := by decide +kernel
  have hmade : outcome (move 2 9 (some 4)) twoShelves = .ok (.along [8, 9, 2] true 4) := by cbv
  have hmove : move 2 9 (some 4) twoShelves =
      .ok (.along [8, 9, 2] true 4) (after (move 2 9 (some 4)) twoShelves) := by
    unfold outcome at hmade
    unfold after
    split at hmade
    · next hrun =>
      cases hmade
      rw [hrun]
    · cases hmade
  exact ⟨⟨hconsistent, hlink, hmade⟩, move_back_restores hconsistent hlink hmove⟩

end Outline.Manager
