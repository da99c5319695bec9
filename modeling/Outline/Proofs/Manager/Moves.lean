import Outline.Proofs.Manager.Books
import Outline.Proofs.Store.Descent

/-!
Where a page may be moved to.

A move to another parent is refused for a parent that is missing, that lies within the page, or that
lies so deep that something below the page would get below the ninth level. The deepest level that a
parent may lie at is told beforehand; in a consistent table it is exactly the last one that a move
accepts.
-/
namespace Outline
set_option autoImplicit false

namespace Arrange

variable {t : Table} {old : Link} {pid : PageId}

/-- The deepest level for a parent of a page, which leaves room for all that lies below the page. -/
def parentLimit (t : Table) (old : Link) : Nat := maxDepth - 1 - (t.deepest old - old.depth)

/-- What the verdict on a move to another parent tells about that parent. -/
inductive Judged (t : Table) (old : Link) (pid : PageId) :
    Except OutlineFault (Link × List PageId) → Prop where
  | missing (away : pid ≠ 0) (unstored : t.stored? pid = none) :
      Judged t old pid (.error (.pageMissing pid))
  | within {parent : Link} (stored : t.stored? pid = some parent)
      (descends : t.Descends old.nid pid) : Judged t old pid (.error (.invalidMove old.nid pid))
  | deep {parent : Link} (depth : Nat) (stored : t.stored? pid = some parent)
      (apart : ¬ t.Descends old.nid pid) (deep : parentLimit t old < parent.depth) :
      Judged t old pid (.error (.depthExceeded old.nid depth))
  | top (moved : Link × List PageId) (top : pid = 0) : Judged t old pid (.ok moved)
  | fits {parent : Link} (moved : Link × List PageId) (stored : t.stored? pid = some parent)
      (apart : ¬ t.Descends old.nid pid) (fits : parent.depth ≤ parentLimit t old) :
      Judged t old pid (.ok moved)

theorem isWithin_iff_descends (h : t.Whole) (hs : t.stored? old.nid = some old) {parent : Link}
    (hp : t.stored? pid = some parent) :
    parent.isWithin old.nid = true ↔ t.Descends old.nid pid := by
  obtain ⟨_, rfl⟩ := h.sound.of_stored? hp
  rw [Link.isWithin, List.contains_iff_mem, h.descends_iff hs hp]

theorem judged_verdict (h : t.Whole) (hs : t.stored? old.nid = some old) (hpid : pid ≠ old.pid)
    (weight : Option Int32) : Judged t old pid (verdict t old.nid pid weight) := by
  have ho := (h.sound.of_stored? hs).1
  have hdepth := ho.depth_pos
  have hle := ho.depth_le
  have hdeepest := Table.deepest_le h.sound hle
  rw [verdict_of_ne hs hpid, pathAbove]
  simp only [depth_placed]
  by_cases hz : pid = 0
  · -- nothing lies deeper below the page at the top than it did before
    rw [if_pos hz]
    simp only [List.length_nil]
    rw [if_neg (by omega)]
    exact .top _ hz
  · rw [if_neg hz]
    cases hp : t.stored? pid with
    | none => exact .missing hz hp
    | some parent =>
      have hps := (h.sound.of_stored? hp).1
      have hwithin := isWithin_iff_descends h hs hp
      simp only
      by_cases hw : parent.isWithin old.nid = true
      · rw [if_pos hw]
        exact .within hp (hwithin.1 hw)
      · rw [if_neg hw]
        have happart : ¬ t.Descends old.nid pid := mt hwithin.2 hw
        by_cases hd : maxDepth < parent.depth + 1
        · rw [if_pos hd]
          exact .deep _ hp happart (by unfold parentLimit; omega)
        · rw [if_neg hd]
          simp only [hps.length_path]
          split
          · next hover => exact .deep _ hp happart (by unfold parentLimit; omega)
          · next hfits => exact .fits _ hp happart (by unfold parentLimit; omega)

end Arrange

namespace Manager

variable {m : Manager} {old : Link}

/-- No move is made inside a transaction. -/
theorem move_inside (hm : m.inTransaction = true) (nid pid : PageId) (weight : Option Int32) :
    ∃ events, move nid pid weight m =
      .error (.storeUnavailable (.engine .nestedTransaction)) (m.tell events) := by
  have htold (work : TableWork (Link × List PageId)) : told .move nid (atomically none work) m =
      .error (.storeUnavailable (.engine .nestedTransaction))
        (m.tell [refused .move nid (.storeUnavailable (.engine .nestedTransaction))]) := by
    rw [told, atomically_of_inside hm]
    rfl
  exact ⟨_, bind_of_error (htold _)⟩

theorem outcome_move (h : m.table.Sound) (hm : m.inTransaction = false) (nid pid : PageId)
    (weight : Option Int32) :
    outcome (move nid pid weight) m = (Arrange.verdict m.table nid pid weight).map Prod.fst := by
  rcases move_eq h hm nid pid weight with ⟨refusal, events, hv, hrun⟩ |
    ⟨moved, touched, t, events, hv, _, hrun⟩
  · rw [outcome, hrun, hv]
    rfl
  · rw [outcome, hrun, hv]
    rfl

/-- Outside a transaction a move leaves a table that its verdict allows. -/
theorem moveEnds_after (h : m.table.Sound) (hm : m.inTransaction = false) (nid pid : PageId)
    (weight : Option Int32) :
    Arrange.MoveEnds m.table nid pid (Arrange.verdict m.table nid pid weight)
        (after (move nid pid weight) m).table ∧
      (after (move nid pid weight) m).inTransaction = false := by
  rcases move_eq h hm nid pid weight with ⟨refusal, events, hv, hrun⟩ |
    ⟨moved, touched, t, events, hv, hends, hrun⟩
  · rw [after, hrun, hv]
    exact ⟨.refused refusal, hm⟩
  · rw [after, hrun, hv]
    exact ⟨hends, hm⟩

/-- The level that is told for a parent leaves room for all that is stored below the page, also when
the page is not marked and nothing was looked for. -/
theorem outcome_deepestParent (h : m.table.Whole) (hs : m.table.stored? old.nid = some old) :
    outcome (deepestParent old) m = .ok (Arrange.parentLimit m.table old) := by
  have hlook : look (·.maxDepthWithin old) m = .ok (m.table.deepest old) m :=
    look_of_ok (Table.maxDepthWithin_eq h.sound old)
  unfold outcome deepestParent
  by_cases hmark : old.hasChildren = true
  · rw [if_pos hmark, bind_of_ok hlook]
    rfl
  · rw [if_neg hmark, Arrange.parentLimit, h.deepest_of_unmarked hs (by simpa using hmark)]
    rfl

/-- In a consistent table, when no transaction is open, a move of a stored page to another parent is
refused for a missing parent exactly when there is no row for it, as invalid exactly when the parent
is the page or lies below it by the parents that rows name, and for its depth exactly when the parent
is stored elsewhere and lies deeper than the level told for it; in all other cases it is made. -/
theorem move_accepted_iff (h : m.table.Consistent) (hm : m.inTransaction = false) {nid : PageId}
    (hs : m.table.link? nid = .ok (some old)) (pid : PageId) (hpid : pid ≠ old.pid)
    (weight : Option Int32) :
    ∃ limit, outcome (deepestParent old) m = .ok limit ∧
      (outcome (move nid pid weight) m = .error (.pageMissing pid) ↔
        pid ≠ 0 ∧ m.table.link? pid = .ok none) ∧
      (outcome (move nid pid weight) m = .error (.invalidMove nid pid) ↔
        m.table.Descends nid pid) ∧
      ((∃ depth, outcome (move nid pid weight) m = .error (.depthExceeded nid depth)) ↔
        ∃ parent, m.table.link? pid = .ok (some parent) ∧ ¬ m.table.Descends nid pid ∧
          limit < parent.depth) ∧
      ((∃ moved, outcome (move nid pid weight) m = .ok moved) ↔
        pid = 0 ∨ ∃ parent, m.table.link? pid = .ok (some parent) ∧ ¬ m.table.Descends nid pid ∧
          parent.depth ≤ limit) := by
  have hw := h.whole
  have hlink := Table.link?_eq hw.sound
  rw [hlink, Except.ok.injEq] at hs
  obtain ⟨_, rfl⟩ := hw.sound.of_stored? hs
  refine ⟨_, outcome_deepestParent hw hs, ?_⟩
  simp only [hlink, Except.ok.injEq, outcome_move hw.sound hm]
  have hstored : m.table.Descends old.nid pid → ∃ k, m.table.stored? pid = some k :=
    fun hd => (hd.mem_path hw hs).imp fun _ => And.left
  have hzero : m.table.stored? 0 = none := hw.sound.stored?_zero
  have hjudged := Arrange.judged_verdict hw hs hpid weight
  generalize Arrange.verdict m.table old.nid pid weight = result at hjudged ⊢
  cases hjudged with
  | missing away unstored =>
    have hoff : ¬ m.table.Descends old.nid pid := by
      intro hd
      simpa [unstored] using hstored hd
    simp [Except.map, away, unstored, hoff]
  | within stored descends =>
    have haway : pid ≠ 0 := by
      rintro rfl
      simp [hzero] at stored
    simp [Except.map, stored, descends, haway]
  | deep depth stored apart deep =>
    have haway : pid ≠ 0 := by
      rintro rfl
      simp [hzero] at stored
    simp [Except.map, stored, apart, deep, haway]
  | top moved top =>
    subst top
    have hoff : ¬ m.table.Descends old.nid 0 := by
      intro hd
      simpa [hzero] using hstored hd
    simp [Except.map, hoff, hzero]
  | fits moved stored apart fits =>
    have hdeep := Nat.not_lt.2 fits
    simp [Except.map, stored, apart, fits, hdeep]

/-- A book with one page on each level but the last, and one whose root has a child with a child. -/
def tallAndLow : Manager where
  table := [.ofLink (.along [1] true 0), .ofLink (.along [1, 2] true 0),
    .ofLink (.along [1, 2, 3] true 0), .ofLink (.along [1, 2, 3, 4] true 0),
    .ofLink (.along [1, 2, 3, 4, 5] true 0), .ofLink (.along [1, 2, 3, 4, 5, 6] true 0),
    .ofLink (.along [1, 2, 3, 4, 5, 6, 7] true 0),
    .ofLink (.along [1, 2, 3, 4, 5, 6, 7, 8] false 0), .ofLink (.along [20] true 0),
    .ofLink (.along [20, 21] true 0), .ofLink (.along [20, 21, 22] false 0)].foldl Table.put .empty

/-- With one level below it, a page may be moved under the page on the seventh level, but not under
the one on the eighth. -/
theorem move_accepted_iff_tallAndLow :
    (tallAndLow.table.Consistent ∧ tallAndLow.inTransaction = false ∧
      tallAndLow.table.link? 21 = .ok (some (.along [20, 21] true 0))) ∧
    outcome (deepestParent (.along [20, 21] true 0)) tallAndLow = .ok 7 ∧
    (∃ moved, outcome (move 21 7 none) tallAndLow = .ok moved) ∧
    ∃ depth, outcome (move 21 8 none) tallAndLow = .error (.depthExceeded 21 depth) := by
  have hconsistent : tallAndLow.table.Consistent := by decide +kernel
  have hlink : tallAndLow.table.link? 21 = .ok (some (.along [20, 21] true 0)) := by
    decide +kernel
  have hseven : tallAndLow.table.link? 7 = .ok (some (.along [1, 2, 3, 4, 5, 6, 7] true 0)) := by
    decide +kernel
  have height : tallAndLow.table.link? 8 =
      .ok (some (.along [1, 2, 3, 4, 5, 6, 7, 8] false 0)) := by decide +kernel
  have hlimit : outcome (deepestParent (.along [20, 21] true 0)) tallAndLow = .ok 7 := by cbv
  have happart : ∀ l : Link, tallAndLow.table.stored? l.nid = some l → (21 : PageId) ∉ l.path →
      ¬ tallAndLow.table.Descends 21 l.nid := by
    intro l hl hmem hd
    have htop : tallAndLow.table.stored? (Link.along [20, 21] true 0).nid =
        some (.along [20, 21] true 0) := by decide +kernel
    exact hmem ((hconsistent.whole.descends_iff htop hl).1 hd)
  refine ⟨⟨hconsistent, rfl, hlink⟩, hlimit, ?_, ?_⟩
  · obtain ⟨limit, htold, _, _, _, hmade⟩ :=
      move_accepted_iff hconsistent rfl hlink 7 (by decide) none
    obtain rfl : limit = 7 := Except.ok.inj (htold.symm.trans hlimit)
    exact hmade.2 (.inr ⟨_, hseven, happart (.along [1, 2, 3, 4, 5, 6, 7] true 0)
      (by decide +kernel) (by decide +kernel), by decide⟩)
  · obtain ⟨limit, htold, _, _, hdeep, _⟩ :=
      move_accepted_iff hconsistent rfl hlink 8 (by decide) none
    obtain rfl : limit = 7 := Except.ok.inj (htold.symm.trans hlimit)
    exact hdeep.2 ⟨_, height, happart (.along [1, 2, 3, 4, 5, 6, 7, 8] false 0)
      (by decide +kernel) (by decide +kernel), by decide⟩

end Manager
end Outline
