import Outline.Proofs.Arrange.Linked
import Outline.Proofs.Store.Consistent

/-!
Tables in which only roots give books their ids.

A book may be left without its root. Its rows then go on to have the id of a page that is gone, and
that page may be stored anew. Moves and removals put no page with such an id below another one.
-/
namespace Outline
set_option autoImplicit false

/-- Whether all stored pages are roots whose ids are those of the books of stored pages. -/
def Table.Rooted (t : Table) : Prop :=
  ∀ k l, t.stored? k.nid = some k → t.stored? l.nid = some l → l.bid = k.nid → k.pid = 0

namespace Table

variable {t t' : Table} {l old : Link} {nid : PageId}

theorem rooted_empty : Table.empty.Rooted := fun _ _ hk => nomatch hk

/-- A new page is at the top, or in a book that is there, with an id that is that of no book. -/
theorem Rooted.put_new (hr : t.Rooted) (hl : l.Sound) (hnew : t.stored? l.nid = none)
    (hplace : l.pid = 0 ∨ (∀ k, t.stored? k.nid = some k → k.bid ≠ l.nid) ∧
      ∃ p, t.stored? p.nid = some p ∧ p.bid = l.bid) :
    (t.put (.ofLink l)).Rooted := by
  intro k j hk hj hbid
  rw [stored?_put hl] at hk hj
  split at hk
  · cases hk
    rcases hplace with htop | ⟨hfree, p, hp, hpb⟩
    · exact htop
    · split at hj
      · cases hj
        exact absurd (hpb.trans hbid) (hfree p hp)
      · exact absurd hbid (hfree j hj)
  · split at hj
    · cases hj
      rcases hplace with htop | ⟨_, p, hp, hpb⟩
      · exact absurd (hbid.symm.trans (hl.bid_of_top htop)) (ne_of_stored? hk hnew)
      · exact hr k p hk hp (hpb.trans hbid)
    · exact hr k j hk hj hbid

theorem Rooted.of_map {f : Link → Link} (h : t.Sound)
    (hstored : ∀ y, t'.stored? y = (t.stored? y).map f)
    (hnid : ∀ k, t.stored? k.nid = some k → (f k).nid = k.nid)
    (hroot : ∀ k l, t.stored? k.nid = some k → t.stored? l.nid = some l →
      (f l).bid = k.nid → (f k).pid = 0) : t'.Rooted := by
  intro k' l' hk' hl' hbid
  rw [hstored, Option.map_eq_some_iff] at hk' hl'
  obtain ⟨k, hk, rfl⟩ := hk'
  obtain ⟨l, hl, rfl⟩ := hl'
  have hks := h.stored?_nid hk
  rw [hnid k hks] at hbid
  exact hroot k l hks (h.stored?_nid hl) hbid

theorem Rooted.setHasChildren (hr : t.Rooted) (h : t.Sound) (nid : PageId) (value : Bool) :
    (t.setHasChildren nid value).Rooted := by
  refine Rooted.of_map h (stored?_setHasChildren h nid · value)
    (fun k _ => k.nid_flagged nid value) ?_
  intro k l hk hl
  rw [Link.bid_flagged, Link.pid_flagged]
  exact hr k l hk hl

theorem Rooted.weigh (hr : t.Rooted) (h : t.Sound) (hs : t.stored? old.nid = some old)
    (weight : Int32) : (t.put (.ofLink { old with weight := weight })).Rooted := by
  refine Rooted.of_map h (stored?_weigh h hs weight) (fun k _ => k.nid_weighed _ _) ?_
  intro k l hk hl
  rw [Link.bid_weighed, Link.pid_weighed]
  exact hr k l hk hl

theorem Rooted.erase (hr : t.Rooted) (nid : PageId) : (t.erase nid).Rooted := by
  intro k l hk hl
  rw [stored?_erase] at hk hl
  split at hk
  · cases hk
  · split at hl
    · cases hl
    · exact hr k l hk hl

end Table

namespace Arrange

variable {t t' t₁ : Table} {old moved : Link} {cs : List Link} {pid : PageId}
  {touched : List PageId}

/-- A move keeps ids of books to roots. To the top also a link moves that is out of date. -/
theorem Rehung.rooted (hr : Rehung t old pid moved t') (h : t.Sound) (ho : old.Sound)
    (hs : pid ≠ 0 → t.stored? old.nid = some old) (hroot : t.Rooted) : t'.Rooted := by
  have hd := hr.destined h ho
  obtain ⟨flag, _, hstored⟩ := hr.stored
  have hsound : ∀ {k}, t.stored? k.nid = some k → k.Sound := fun hk => (h.of_stored? hk).1
  refine Table.Rooted.of_map h hstored
    (fun k hk => Link.nid_carried ho hd.sound (hsound hk) hd.page) ?_
  intro k l hk hl hbid
  rw [Link.bid_carried_of_any ho hd.sound (hsound hl) hd.page] at hbid
  rw [Link.pid_carried ho hd.sound (hsound hk) hd.page, hd.parent]
  split at hbid
  · -- The new book is that of the moved page, or that of its new parent, which is another page.
    rcases hd.path with ⟨hz, hpath⟩ | ⟨parent, hparent, hfree, hpath⟩
    · rw [← hd.sound.head_path, hpath] at hbid
      rw [if_pos (show k.nid = old.nid from hbid.symm), hz]
    · have hps := (h.of_stored? hparent).1
      have hbook := hd.sound.bid_of_path hps hpath
      rw [if_neg]
      · exact hroot k parent hk (h.stored?_nid hparent) (hbook.symm.trans hbid)
      · intro hself
        apply hfree
        rw [← hself, ← hbid, hbook]
        exact hps.bid_starts.subset List.mem_cons_self
  · next hout =>
    rw [not_or] at hout
    by_cases hself : k.nid = old.nid
    · rw [if_pos hself]
      by_contra hpid
      -- The page that moves below another one starts this book, so all of the book moves with it.
      have hold := eq_of_nid (hs hpid) hk hself
      rw [hold] at hk hbid
      have hpath := ho.path_of_top (hroot old l hk hl hbid)
      refine hout.2 ((Link.liesWithin_iff (hsound hl) ho).2 ?_)
      rw [hpath, ← hbid]
      exact (hsound hl).bid_starts
    · rw [if_neg hself]
      exact hroot k l hk hl hbid

theorem Promoted.rooted (hp : Promoted t cs touched t') (h : t.Sound) (hcs : ∀ c ∈ cs, c.Sound)
    (hroot : t.Rooted) : t'.Rooted := by
  induction hp with
  | nil => exact hroot
  | cons first _ ih =>
    obtain ⟨hc, hrest⟩ := List.forall_mem_cons.1 hcs
    exact ih first.sound hrest (first.rooted h hc (fun hz => absurd rfl hz) hroot)

theorem removed_rooted (h : t.Sound) (hroot : t.Rooted)
    (hp : Promoted (t.erase old.nid) (orphansOf t old) touched t₁) :
    (t₁.setHasChildren old.pid (otherChildren t₁ old)).Rooted := by
  have hpromoted := hp.rooted h.erase (fun _ => sound_of_mem_orphansOf h) (hroot.erase _)
  exact hpromoted.setHasChildren (hp.sound h.erase) _ _

end Arrange

end Outline
