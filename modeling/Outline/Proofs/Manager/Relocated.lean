import Outline.Proofs.Arrange.Relocated
import Outline.Proofs.Manager.Moves

/-!
A move to another parent that is made, row by row.
-/
namespace Outline.Manager
set_option autoImplicit false

variable {m m' : Manager} {old moved : Link} {nid pid : PageId} {weight : Option Int32}

/-- In a consistent table a move to another parent that is made gives the page and all below it the
chain of the parent for a start, with the depth and the book that belong to it, marks the parent,
marks the parent that was left if a row still names it, and leaves every other row as it was. The
table stays consistent, and the answer is the new link of the page. -/
theorem move_relocates (h : m.table.Consistent) (hs : m.table.link? nid = .ok (some old))
    (hpid : pid ≠ old.pid) (hmove : move nid pid weight m = .ok moved m') :
    Arrange.Relocated m.table old pid (weight.getD old.weight) m'.table ∧
      m'.table.link? nid = .ok (some moved) := by
  have hw := h.whole
  rw [Table.link?_eq hw.sound, Except.ok.injEq] at hs
  obtain ⟨_, rfl⟩ := hw.sound.of_stored? hs
  have hm : m.inTransaction = false := by
    by_contra hin
    obtain ⟨events, hrefused⟩ := move_inside (by simpa using hin) old.nid pid weight
    rw [hrefused] at hmove
    cases hmove
  rcases move_eq hw.sound hm old.nid pid weight with ⟨refusal, events, _, hrun⟩ |
    ⟨made, touched, t, events, hv, hends, hrun⟩
  · rw [hrun] at hmove
    cases hmove
  · rw [hrun] at hmove
    cases hmove
    cases hends with
    | weighed weight stored stays =>
      rw [hs] at stored
      cases stored
      exact absurd stays hpid
    | rehung stored leaves hr =>
      rw [hs] at stored
      cases stored
      obtain ⟨above, hp, hmade⟩ := Arrange.moved_of_verdict hs hpid hv
      refine ⟨hr.relocated hw hs hpid hp hmade, ?_⟩
      show t.link? old.nid = .ok (some moved)
      rw [Table.link?_eq hr.sound, hr.stored?_page hw hs]

/-- A page with a child that has a child and one that has none, in a book with another page under the
same parent, and a book of two pages. -/
def twoShelves : Manager where
  table := [.ofLink (.along [1] true 0), .ofLink (.along [1, 2] true 3),
    .ofLink (.along [1, 2, 3] true 0), .ofLink (.along [1, 2, 3, 4] false 7),
    .ofLink (.along [1, 2, 5] false 0), .ofLink (.along [1, 6] false 0),
    .ofLink (.along [8] true 0), .ofLink (.along [8, 9] false 0)].foldl Table.put .empty

/-- The page is moved into the other book, one level deeper, and given a weight. -/
theorem move_relocates_twoShelves :
    (twoShelves.table.Consistent ∧
      twoShelves.table.link? 2 = .ok (some (.along [1, 2] true 3))) ∧
    ∃ moved m', move 2 9 (some 4) twoShelves = .ok moved m' ∧
      Arrange.Relocated twoShelves.table (.along [1, 2] true 3) 9 4 m'.table ∧
      m'.table.link? 4 = .ok (some (.along [8, 9, 2, 3, 4] false 7)) ∧
      m'.table.link? 9 = .ok (some (.along [8, 9] true 0)) := by
  have hconsistent : twoShelves.table.Consistent := by decide +kernel
  have hlink : twoShelves.table.link? 2 = .ok (some (.along [1, 2] true 3)) := by decide +kernel
  have hfour : twoShelves.table.link? 4 = .ok (some (.along [1, 2, 3, 4] false 7)) := by
    decide +kernel
  have hnine : twoShelves.table.link? 9 = .ok (some (.along [8, 9] false 0)) := by decide +kernel
  have hmade : ∃ moved m', move 2 9 (some 4) twoShelves = .ok moved m' := by
    have haccepted : outcome (move 2 9 (some 4)) twoShelves =
        .ok (.along [8, 9, 2] true 4) := by cbv
    unfold outcome at haccepted
    split at haccepted
    · next hmove => exact ⟨_, _, hmove⟩
    · cases haccepted
  obtain ⟨moved, m', hmove⟩ := hmade
  obtain ⟨hrelocated, -⟩ := move_relocates hconsistent hlink (by decide) hmove
  refine ⟨⟨hconsistent, hlink⟩, moved, m', hmove, hrelocated, ?_, ?_⟩
  · have hbelow := hrelocated.below (.along [1, 2, 3, 4] false 7) [3, 4] hfour (by decide)
      (by decide)
    exact hbelow.trans (by cbv)
  · exact hrelocated.joined _ hnine

end Outline.Manager
