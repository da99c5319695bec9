import Outline.Proofs.Arrange.Dissolved
import Outline.Proofs.Manager.Relocated

/-!
Removing the root of a book.
-/
namespace Outline.Manager
set_option autoImplicit false

variable {m : Manager} {root : Link} {nid : PageId}

/-- In a consistent table the root of a book can always be removed. Its row is gone then, and the
children it had start books, each with all below it. The chains of the other pages of the book lose
the root, their depths are one less, and their books are the first ids of the new chains. Their
weights and marks stay, and so do their parents, but for the children, which have none any more. The
rows of other books are what they were, and the table stays consistent. -/
theorem delete_dissolves (h : m.table.Consistent) (hm : m.inTransaction = false)
    (hs : m.table.link? nid = .ok (some root)) (hroot : root.isBookRoot = true) :
    ∃ m', delete nid m = .ok () m' ∧ Arrange.Dissolved m.table nid m'.table := by
  have hw := h.whole
  rw [Table.link?_eq hw.sound, Except.ok.injEq] at hs
  obtain ⟨_, rfl⟩ := hw.sound.of_stored? hs
  obtain ⟨touched, t, hp, hwork⟩ := Arrange.delete_of_stored hw.sound hs
  have htop : t.setHasChildren root.pid (Arrange.otherChildren t root) = t := by
    rw [(hw.isBookRoot_iff hs).1 hroot, Arrange.setHasChildren_zero (hp.sound hw.sound.erase)]
  rw [htop] at hwork
  obtain ⟨events, hrun⟩ := settled_of_ok .delete root.nid (fun touched => touched) (fun _ => ())
    hm hwork
  exact ⟨_, hrun, hp.dissolved hw hs hroot⟩

/-- The root of the book with the deeper pages is removed, and its two children start books. -/
theorem delete_dissolves_twoShelves :
    (twoShelves.table.Consistent ∧ twoShelves.inTransaction = false ∧
      twoShelves.table.link? 1 = .ok (some (.along [1] true 0)) ∧
      (Link.along [1] true 0).isBookRoot = true) ∧
    ∃ m', delete 1 twoShelves = .ok () m' ∧ Arrange.Dissolved twoShelves.table 1 m'.table ∧
      m'.table.link? 2 = .ok (some (.along [2] true 3)) ∧
      m'.table.link? 4 = .ok (some (.along [2, 3, 4] false 7)) ∧
      m'.table.row? 9 = twoShelves.table.row? 9 := by
  have hconsistent : twoShelves.table.Consistent := by decide +kernel
  have hlink : twoShelves.table.link? 1 = .ok (some (.along [1] true 0)) := by decide +kernel
  have htwo : twoShelves.table.link? 2 = .ok (some (.along [1, 2] true 3)) := by decide +kernel
  have hfour : twoShelves.table.link? 4 = .ok (some (.along [1, 2, 3, 4] false 7)) := by
    decide +kernel
  have hnine : twoShelves.table.link? 9 = .ok (some (.along [8, 9] false 0)) := by decide +kernel
  obtain ⟨m', hdelete, hdissolved⟩ := delete_dissolves hconsistent rfl hlink (by decide)
  refine ⟨⟨hconsistent, rfl, hlink, by decide⟩, m', hdelete, hdissolved, ?_, ?_, ?_⟩
  · obtain ⟨first, below, hpath, hstored⟩ := hdissolved.pages (.along [1, 2] true 3) htwo
      (by decide) (by decide)
    cases hpath.symm.trans (show _ = [1, 2] by decide)
    exact hstored.trans (by cbv)
  · obtain ⟨first, below, hpath, hstored⟩ := hdissolved.pages (.along [1, 2, 3, 4] false 7) hfour
      (by decide) (by decide)
    cases hpath.symm.trans (show _ = [1, 2, 3, 4] by decide)
    exact hstored.trans (by cbv)
  · refine hdissolved.others 9 fun k hk => ?_
    rw [hnine] at hk
    cases hk
    decide

end Outline.Manager
