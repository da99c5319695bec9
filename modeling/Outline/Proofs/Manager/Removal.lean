import Outline.Proofs.Manager.Run

/-!
Removing pages after any run, also from books that have lost pages before.
-/
namespace Outline.Manager
set_option autoImplicit false

/-- What removing a page of a manager comes to: it is refused only for a page that is not stored, it
leaves all other pages stored, in their order, and of the children of a book root, whose links are
read before the root is removed, each can become a root when those before it have. -/
structure Removes (m : Manager) (nid : PageId) : Prop where
  answer : outcome (delete nid) m =
    if (m.table.row? nid).isSome then .ok () else .error (.pageMissing nid)
  stored : (after (delete nid) m).table.rows.map Row.nid =
    (m.table.rows.map Row.nid).filter (· != nid)
  fewer : (m.table.row? nid).isSome →
    (after (delete nid) m).table.rows.length + 1 = m.table.rows.length
  promotes : ∀ old orphans done c rest, m.table.link? nid = .ok (some old) →
    old.isBookRoot = true →
    m.table.select ((Query.book old.bid).childrenOf nid) = .ok orphans →
    orphans = done ++ c :: rest →
    ∃ touched t moved t', Arrange.promoteAll done (m.table.erase nid) = .ok touched t ∧
      Arrange.move c 0 none t = .ok moved t'

section Ready

variable {m : Manager} {old : Link} {nid : PageId}

/-- The pages that are stored after a removal are those that stay without promotions. -/
theorem map_nid_delete (h : m.Ready) (hs : m.table.stored? nid = some old) :
    outcome (delete nid) m = .ok () ∧
      (after (delete nid) m).table.rows.map Row.nid = (m.table.erase nid).rows.map Row.nid := by
  obtain ⟨_, rfl⟩ := h.sound.of_stored? hs
  obtain ⟨touched, t, hp, hwork⟩ := Arrange.delete_of_stored h.sound hs
  obtain ⟨events, hrun⟩ := settled_of_ok .delete old.nid (fun touched => touched) (fun _ => ())
    h.outside hwork
  have ht := hp.sound h.sound.erase
  have hdelete : delete old.nid m = _ := hrun
  rw [outcome, after, hdelete]
  refine ⟨rfl, Table.map_nid_eq fun x => ?_⟩
  show ((t.setHasChildren old.pid (Arrange.otherChildren t old)).row? x).isSome = _
  rw [← hp.isSome_row? h.sound.erase, Table.row?_of_stored? (ht.setHasChildren _ _),
    Table.row?_of_stored? ht, Table.stored?_setHasChildren ht]
  simp only [Option.isSome_map]

theorem Ready.removes (h : m.Ready) (nid : PageId) : Removes m nid := by
  have hpromotes : ∀ old orphans done c rest, m.table.link? nid = .ok (some old) →
      old.isBookRoot = true →
      m.table.select ((Query.book old.bid).childrenOf nid) = .ok orphans →
      orphans = done ++ c :: rest →
      ∃ touched t moved t', Arrange.promoteAll done (m.table.erase nid) = .ok touched t ∧
        Arrange.move c 0 none t = .ok moved t' := by
    intro old orphans done c rest hold hroot hread hsplit
    rw [Table.link?_eq h.sound, Except.ok.injEq] at hold
    have horphans : Arrange.orphansOf m.table old = orphans := by
      rw [Table.select_eq h.sound, Except.ok.injEq] at hread
      rw [Arrange.orphansOf, if_pos hroot, (h.sound.of_stored? hold).2, hread]
    exact Arrange.promotion_ok h.sound.erase (Arrange.promotable_orphansOf h.sound hold)
      (horphans.trans hsplit)
  cases hs : m.table.stored? nid with
  | none =>
    have hrow : m.table.row? nid = none := (Table.stored?_eq_none_iff h.sound).1 hs
    have hrefused : delete nid m = _ :=
      refused_of_error h.outside (Arrange.delete_of_missing h.sound hs)
    refine ⟨?_, ?_, fun hsome => ?_, hpromotes⟩
    · rw [outcome, hrefused, hrow]
      rfl
    · have hkept : (after (delete nid) m).table = m.table := by
        rw [after, hrefused]
        rfl
      rw [hkept]
      refine (List.filter_eq_self.2 fun x hx => ?_).symm
      rw [bne_iff_ne]
      intro heq
      rw [heq, Table.mem_map_nid_iff, hrow] at hx
      cases hx
    · rw [hrow] at hsome
      cases hsome
  | some old =>
    have hrow : (m.table.row? nid).isSome := by
      rw [Table.row?_of_stored? h.sound, hs]
      rfl
    obtain ⟨hanswer, hstored⟩ := map_nid_delete h hs
    refine ⟨by rw [hanswer, if_pos hrow], hstored.trans (Table.map_nid_erase _ _), fun _ => ?_,
      hpromotes⟩
    have hlength := congrArg List.length hstored
    rw [List.length_map, List.length_map] at hlength
    rw [hlength, Table.length_erase hrow]

end Ready

/-- After any run from an empty table, with orphans and ids that are used again, a page is removed
exactly when it is stored, all others stay stored, and no promotion of a child fails. -/
theorem run_removes (content : Content) (settings : Settings) (as : List Action) (nid : PageId) :
    Removes ((blank content settings).run as) nid :=
  ((ready_blank content settings).run as).removes nid

/-- The page that was placed deep in the book that has its id gets a child. -/
def deepRoot : List Action := reusedIds ++ [.change (.addChild 4 1 0)]

/-- It is removed as the root of its book and the child stays. A page that was never placed is
missing. -/
theorem run_removes_deepRoot :
    (((blank .empty {}).run deepRoot).table.row? 1).isSome ∧
    outcome (delete 1) ((blank .empty {}).run deepRoot) = .ok () ∧
    (after (delete 1) ((blank .empty {}).run deepRoot)).table.rows.map Row.nid = [2, 3, 4] ∧
    outcome (delete 9) ((blank .empty {}).run deepRoot) = .error (.pageMissing 9) := by
  have hfound : (((blank .empty {}).run deepRoot).table.row? 1).isSome := by cbv
  have hids : ((blank .empty {}).run deepRoot).table.rows.map Row.nid = [1, 2, 3, 4] := by cbv
  have hmissing : ((blank .empty {}).run deepRoot).table.row? 9 = none := by cbv
  have hone := run_removes .empty {} deepRoot 1
  have hnine := run_removes .empty {} deepRoot 9
  refine ⟨hfound, hone.answer.trans (if_pos hfound), hone.stored.trans ?_, hnine.answer.trans ?_⟩
  · rw [hids]
    decide
  · rw [hmissing]
    rfl

end Outline.Manager
