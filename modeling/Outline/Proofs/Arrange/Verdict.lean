import Outline.Proofs.Arrange.Moving

/-!
What a move comes to, as it is decided before anything is written.

The decision takes the links of the page and of the parent, and the depth of what lies below the
page. The work of a move ends in it, with the table as it was or with the move made.
-/
namespace Outline
set_option autoImplicit false

namespace Arrange

variable {t : Table} {old : Link} {nid pid : PageId} {refusal : OutlineFault}

/-- The new link of a page that is to move, with the books that are touched, or why it is not moved.
-/
def verdict (t : Table) (nid pid : PageId) (weight : Option Int32) :
    Except OutlineFault (Link × List PageId) :=
  match t.stored? nid with
  | none => .error (.pageMissing nid)
  | some old =>
    if pid = old.pid then .ok ({ old with weight := weight.getD old.weight }, [old.bid])
    else match pathAbove t nid pid with
      | .error refusal => .error refusal
      | .ok above =>
        let moved := old.placed above (weight.getD old.weight)
        let deepest := moved.depth + (t.deepest old - old.depth)
        if maxDepth < deepest then .error (.depthExceeded nid deepest)
        else .ok (moved, touchedBy old moved)

/-- What a move leaves of a table: the table itself when it is refused, the new weight of a page that
stays under its parent, or the page with all below it under another one. -/
inductive MoveEnds (t : Table) (nid pid : PageId) :
    Except OutlineFault (Link × List PageId) → Table → Prop where
  | refused (refusal : OutlineFault) : MoveEnds t nid pid (.error refusal) t
  | weighed {old : Link} (weight : Int32) (stored : t.stored? nid = some old)
      (stays : pid = old.pid) :
      MoveEnds t nid pid (.ok ({ old with weight := weight }, [old.bid]))
        (t.put (.ofLink { old with weight := weight }))
  | rehung {old moved : Link} {t' : Table} (stored : t.stored? nid = some old)
      (leaves : pid ≠ old.pid) (rehung : Rehung t old pid moved t') :
      MoveEnds t nid pid (.ok (moved, touchedBy old moved)) t'

theorem verdict_of_ne (hs : t.stored? nid = some old) (hpid : pid ≠ old.pid)
    (weight : Option Int32) :
    verdict t nid pid weight =
      match pathAbove t nid pid with
      | .error refusal => .error refusal
      | .ok above =>
        let moved := old.placed above (weight.getD old.weight)
        let deepest := moved.depth + (t.deepest old - old.depth)
        if maxDepth < deepest then .error (.depthExceeded nid deepest)
        else .ok (moved, touchedBy old moved) := by
  rw [verdict, hs]
  simp only [if_neg hpid]

/-- On a sound table the work of a move ends in its verdict. -/
theorem move_ends (h : t.Sound) (nid pid : PageId) (weight : Option Int32) :
    ∃ t', MoveEnds t nid pid (verdict t nid pid weight) t' ∧
      (linkOf nid >>= fun l => move l pid weight) t =
        match verdict t nid pid weight with
        | .ok moved => .ok moved t'
        | .error refusal => .error refusal t' := by
  cases hs : t.stored? nid with
  | none =>
    have hv : verdict t nid pid weight = .error (.pageMissing nid) := by rw [verdict, hs]
    rw [hv]
    exact ⟨t, .refused _, bind_of_error (linkOf_of_missing h hs)⟩
  | some old =>
    obtain ⟨ho, rfl⟩ := h.of_stored? hs
    have hwork : (linkOf old.nid >>= fun l => move l pid weight) t = move old pid weight t :=
      bind_of_ok (linkOf_of_stored h hs)
    rw [hwork]
    by_cases hpid : pid = old.pid
    · have hv : verdict t old.nid pid weight =
          .ok ({ old with weight := weight.getD old.weight }, [old.bid]) := by
        rw [verdict, hs]
        simp only [if_pos hpid]
      rw [hv, hpid]
      exact ⟨_, .weighed _ hs rfl, move_of_eq h hs weight⟩
    · have hv := verdict_of_ne hs hpid weight
      rw [move_of_ne hpid]
      cases hp : pathAbove t old.nid pid with
      | error refusal =>
        rw [hp] at hv
        rw [hv]
        exact ⟨t, .refused refusal, moveSubtree_of_refused h hp⟩
      | ok above =>
        rw [hp] at hv
        simp only [depth_placed] at hv
        rw [hv]
        by_cases hdeep : maxDepth < above.length + 1 + (t.deepest old - old.depth)
        · rw [if_pos hdeep]
          exact ⟨t, .refused _, moveSubtree_of_deep h hp hdeep⟩
        · have hrow : (t.row? old.nid).isSome := by rw [Table.row?_of_stored? h, hs]; rfl
          obtain ⟨t', hr, hrun⟩ :=
            moveSubtree_ok (weight.getD old.weight) h ho hrow hp (Nat.not_lt.1 hdeep)
          rw [if_neg hdeep]
          exact ⟨t', .rehung hs hpid hr, hrun⟩

end Arrange
end Outline
