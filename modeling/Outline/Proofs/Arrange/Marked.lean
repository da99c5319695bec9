import Outline.Proofs.Arrange.Linked
import Outline.Proofs.Store.Marked

/-!
Moves and removals keep marks true.

When a book root is removed, the links of its children are read before the first of them moves, and
one that lay along another's path moves with it before its own turn comes. Its link is then out of
date, but the parent that it names and its mark are not, and marks depend on no more than these.
-/
namespace Outline.Arrange
set_option autoImplicit false

variable {t t' t₁ : Table} {old moved s c : Link} {cs : List Link} {pid gone x : PageId}
  {touched : List PageId}

/-- A move keeps marks true, also with a link that is out of date, if not in its parent and mark. -/
theorem Rehung.marksTrueBut (hr : Rehung t old pid moved t') (h : t.Sound) (ho : old.Sound)
    (hs : t.stored? old.nid = some s) (hparent : s.pid = old.pid)
    (hmark : s.hasChildren = old.hasChildren) (hmarks : t.MarksTrueBut x) :
    t'.MarksTrueBut x := by
  have hd := hr.destined h ho
  obtain ⟨flag, hflag, hstored⟩ := hr.stored
  obtain ⟨hss, hsn⟩ := h.of_stored? hs
  have hself : ∀ k, t.stored? k.nid = some k → k.nid = old.nid → k = s := by
    intro k hk hko
    rw [hko, hs] at hk
    exact (Option.some.inj hk).symm
  have hpid : ∀ k, t.stored? k.nid = some k → (Link.carried old moved flag k).pid =
      if k.nid = old.nid then pid else k.pid := by
    intro k hk
    rw [Link.pid_carried ho hd.sound (h.of_stored? hk).1 hd.page, hd.parent]
  refine Table.MarksTrueBut.of_map h hstored
    (fun k hk => Link.nid_carried ho hd.sound (h.of_stored? hk).1 hd.page) ?_
  intro p hp hpx hm
  rw [Link.hasChildren_carried ho hd.sound (h.of_stored? hp).1 hd.page (fun hpo => by
    rw [hself p hp hpo, hmark, hd.mark]), hd.parent] at hm
  split at hm
  · next hpp =>
    -- The moved page names its new parent.
    refine ⟨s, h.stored?_nid hs, ?_⟩
    rw [hpid s (h.stored?_nid hs), if_pos hsn, hpp]
  · split at hm
    · next hpo =>
      obtain ⟨k, hk, _, hkp, hko⟩ := hflag.1 hm
      refine ⟨k, hk, ?_⟩
      rw [hpid k hk, if_neg hko, hkp, hpo]
    · next hpo =>
      obtain ⟨k, hk, hkp⟩ := hmarks p hp hpx hm
      refine ⟨k, hk, ?_⟩
      rw [hpid k hk, if_neg, hkp]
      intro hko
      rw [hself k hk hko, hparent] at hkp
      exact hpo hkp.symm

/-- Pages whose parent is gone, in links that may be out of date but for their parent and mark. -/
structure Bereft (t : Table) (gone : PageId) (cs : List Link) : Prop where
  sound : ∀ c ∈ cs, c.Sound
  parent : ∀ c ∈ cs, c.pid = gone
  stored : ∀ c ∈ cs, ∃ s, t.stored? c.nid = some s ∧ s.pid = gone ∧ s.hasChildren = c.hasChildren
  distinct : (cs.map Link.nid).Nodup
  gone : t.stored? gone = none

theorem Bereft.head (hb : Bereft t gone (c :: cs)) : c.Sound ∧ c.pid = gone ∧
    ∃ s, t.stored? c.nid = some s ∧ s.pid = gone ∧ s.hasChildren = c.hasChildren :=
  ⟨hb.sound c List.mem_cons_self, hb.parent c List.mem_cons_self,
    hb.stored c List.mem_cons_self⟩

/-- When one of the pages becomes a root, parents and marks of the others stay as they were. -/
theorem Bereft.tail (hb : Bereft t gone (c :: cs)) (h : t.Sound) (hr : Rehung t c 0 moved t₁) :
    Bereft t₁ gone cs := by
  obtain ⟨hc, hparent, _⟩ := hb.head
  have hd := hr.destined h hc
  obtain ⟨flag, _, hstored⟩ := hr.stored
  have hdistinct := hb.distinct
  rw [List.map_cons, List.nodup_cons] at hdistinct
  refine ⟨fun d hmem => hb.sound d (List.mem_cons_of_mem _ hmem),
    fun d hmem => hb.parent d (List.mem_cons_of_mem _ hmem), ?_, hdistinct.2, ?_⟩
  · intro d hmem
    obtain ⟨s, hs, hsp, hsm⟩ := hb.stored d (List.mem_cons_of_mem _ hmem)
    obtain ⟨hss, hsn⟩ := h.of_stored? hs
    have hne : s.nid ≠ c.nid := by
      rw [hsn]
      intro heq
      exact hdistinct.1 (heq ▸ List.mem_map_of_mem hmem)
    refine ⟨Link.carried c moved flag s, by rw [hstored, hs, Option.map_some], ?_, ?_⟩
    · rw [Link.pid_carried hc hd.sound hss hd.page, if_neg hne, hsp]
    · have hleft : s.nid ≠ c.pid := by
        intro heq
        rw [← hsn, heq, hparent, hb.gone] at hs
        cases hs
      rw [Link.hasChildren_carried hc hd.sound hss hd.page fun heq => absurd heq hne, hd.parent,
        if_neg hss.nid_ne_zero, if_neg hleft, hsm]
  · rw [hstored, hb.gone, Option.map_none]

theorem Promoted.marksTrueBut (hp : Promoted t cs touched t') (h : t.Sound)
    (hb : Bereft t gone cs) (hmarks : t.MarksTrueBut x) : t'.MarksTrueBut x := by
  induction hp with
  | nil => exact hmarks
  | cons first _ ih =>
    obtain ⟨hc, hparent, s, hs, hsp, hsm⟩ := hb.head
    exact ih first.sound (hb.tail h first)
      (first.marksTrueBut h hc hs (hsp.trans hparent.symm) hsm hmarks)

/-- The children of a book root lose their parent with it. -/
theorem bereft_orphansOf (h : t.Sound) : Bereft (t.erase old.nid) old.nid (orphansOf t old) := by
  refine ⟨fun _ => sound_of_mem_orphansOf h, ?_, ?_, nodup_orphansOf h old,
    by rw [Table.stored?_erase, if_pos rfl]⟩
  · intro c hc
    exact ((mem_orphansOf h).1 hc).2.2.2
  · intro c hc
    obtain ⟨_, hcs, _, hpid⟩ := (mem_orphansOf h).1 hc
    refine ⟨c, ?_, hpid, rfl⟩
    rw [Table.stored?_erase, if_neg, hcs]
    intro heq
    exact (h.of_stored? hcs).1.other (hpid.trans heq.symm)

theorem removed_marksTrue (h : t.Sound) (hs : t.stored? old.nid = some old) (hmarks : t.MarksTrue)
    (hp : Promoted (t.erase old.nid) (orphansOf t old) touched t₁) :
    (t₁.setHasChildren old.pid (otherChildren t₁ old)).MarksTrue := by
  have h₁ := hp.sound h.erase
  refine (hp.marksTrueBut h.erase (bereft_orphansOf h) (hmarks.erase h hs)).setHasChildren h₁ ?_
  intro hleft
  rw [otherChildren, decide_eq_true_iff, Table.countChildren_pos_iff h₁] at hleft
  obtain ⟨k, hk, _, hkp, _⟩ := hleft
  exact ⟨k, hk, hkp⟩

end Outline.Arrange
