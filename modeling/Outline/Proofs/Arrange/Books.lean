import Outline.Proofs.Arrange.Linked
import Outline.Proofs.Store.Books

/-!
Moves and removals, book by book.

On a linked table a move leaves alone every book but the one it starts from and the one it ends in,
and a removal every book but those it names. Neither leaves a page behind, as long as the page that
is removed is a book root or has no children.
-/
namespace Outline
set_option autoImplicit false

/-- Whether every page but some given ones is at the top or names a stored page as its parent. -/
def Table.ClosedBut (cs : List Link) (t : Table) : Prop :=
  ∀ k, t.stored? k.nid = some k → k ∉ cs → k.pid ≠ 0 → (t.stored? k.pid).isSome

namespace Arrange

variable {t t' t₁ : Table} {old moved c k : Link} {cs : List Link} {pid x b gone : PageId}
  {path touched : List PageId}

theorem not_mem_touchedBy : b ∉ touchedBy old moved ↔ old.bid ≠ b ∧ moved.bid ≠ b := by
  unfold touchedBy
  split
  · next heq => simp [heq, eq_comm]
  · simp [eq_comm]

/-- A move leaves alone every book that it does not touch. -/
theorem Rehung.agreeOn (hr : Rehung t old pid moved t') (h : t.Sound)
    (hs : t.stored? old.nid = some old) (hlink : t.LinkedBut x) (hb : b ∉ touchedBy old moved) :
    t.AgreeOn b t' := by
  have ho := (h.of_stored? hs).1
  have hd := hr.destined h ho
  obtain ⟨hold, hmoved⟩ := not_mem_touchedBy.1 hb
  obtain ⟨flag, _, hstored⟩ := hr.stored
  refine Table.AgreeOn.of_map h hstored ?_ ?_
  · rintro k hk rfl
    have hks := (h.of_stored? hk).1
    refine hd.carried_eq_self hs hk ?_ ?_ ?_
    · intro hw
      exact hold hw.1.symm
    · intro hleft
      have hplace := hlink.place old k hs (by rw [← hleft]; exact hk)
      exact hold (ho.bid_of_path hks hplace)
    · rcases hd.path with ⟨rfl, _⟩ | ⟨parent, hparent, _, hpath⟩
      · exact hks.nid_ne_zero
      · rintro rfl
        rw [hk] at hparent
        cases hparent
        exact hmoved (hd.sound.bid_of_path hks hpath)
  · intro k hk hkb
    rw [hd.bid_carried h hs hk] at hkb
    split at hkb
    · exact absurd hkb hmoved
    · exact hkb

theorem Rehung.closed (hr : Rehung t old pid moved t') (h : t.Sound)
    (hs : t.stored? old.nid = some old) (hc : t.Closed) : t'.Closed := by
  have hd := hr.destined h (h.of_stored? hs).1
  obtain ⟨flag, _, hstored⟩ := hr.stored
  refine Table.Closed.of_map h hstored ?_
  intro k hk
  rw [hd.pid_carried h hs hk]
  split
  · intro hpid
    rcases hd.path with ⟨hz, _⟩ | ⟨parent, hparent, _⟩
    · exact absurd hz hpid
    · rw [hparent]
      rfl
  · exact hc k hk

/-- An orphan that becomes a root is not left behind any more. -/
theorem Rehung.closedBut (hr : Rehung t c 0 moved t₁) (h : t.Sound)
    (ho : Orphans t path gone (c :: cs)) (hc : t.ClosedBut (c :: cs)) : t₁.ClosedBut cs := by
  have hd := hr.destined h (h.of_stored? ho.head).1
  obtain ⟨flag, _, hstored⟩ := hr.stored
  intro k' hk' hmem hpid
  rw [hstored, Option.map_eq_some_iff] at hk'
  obtain ⟨k, hk, rfl⟩ := hk'
  have hks := h.stored?_nid hk
  rw [hd.pid_carried h ho.head hks] at hpid ⊢
  rw [hstored, Option.isSome_map]
  split at hpid
  · exact absurd rfl hpid
  · next hne =>
    rw [if_neg hne]
    refine hc k hks ?_ hpid
    intro hkc
    rcases List.mem_cons.1 hkc with rfl | hkc
    · exact hne rfl
    · have hkept := (ho.tail h hr).stored k hkc
      rw [hstored, hks, Option.map_some, Option.some.injEq] at hkept
      rw [hkept] at hmem
      exact hmem hkc

theorem Promoted.agreeOn (hp : Promoted t cs touched t') (h : t.Sound)
    (ho : Orphans t path gone cs) (hlink : t.LinkedBut x) (hb : b ∉ touched) : t.AgreeOn b t' := by
  induction hp with
  | nil => exact .refl b _
  | cons first _ ih =>
    rw [List.mem_append, not_or] at hb
    exact (first.agreeOn h ho.head hlink hb.1).trans
      (ih first.sound (ho.tail h first) (first.linkedBut h ho.head hlink) hb.2)

/-- When all orphans have become roots, no page is left behind. -/
theorem Promoted.closed (hp : Promoted t cs touched t') (h : t.Sound) (ho : Orphans t path gone cs)
    (hc : t.ClosedBut cs) : t'.Closed := by
  induction hp with
  | nil =>
    intro k hk hpid
    exact hc k hk List.not_mem_nil hpid
  | cons first _ ih => exact ih first.sound (ho.tail h first) (first.closedBut h ho hc)

theorem removed_agreeOn (h : t.Sound) (hs : t.stored? old.nid = some old) (hlink : t.Linked)
    (hp : Promoted (t.erase old.nid) (orphansOf t old) touched t₁) (hb : b ∉ old.bid :: touched) :
    t.AgreeOn b (t₁.setHasChildren old.pid (otherChildren t₁ old)) := by
  rw [List.mem_cons, not_or] at hb
  have horphans := orphans_orphansOf h hs hlink
  have herase : t.AgreeOn b (t.erase old.nid) := Table.agreeOn_erase hs (Ne.symm hb.1)
  have hpromoted := hp.agreeOn h.erase horphans (hlink.erase h hs) hb.2
  refine (herase.trans hpromoted).trans (Table.agreeOn_setHasChildren (hp.sound h.erase) _ ?_)
  intro p hpar
  rw [bid_left h hs hlink hp hpar]
  exact Ne.symm hb.1

/-- Without a book root, or a page that has no children, only the orphans miss their parent. -/
theorem closedBut_erase (h : t.Whole) (hs : t.stored? old.nid = some old)
    (hclean : old.isBookRoot = true ∨ ∀ k, t.stored? k.nid = some k → k.pid ≠ old.nid) :
    (t.erase old.nid).ClosedBut (orphansOf t old) := by
  intro k hk hmem hpid
  rw [Table.stored?_erase] at hk
  split at hk
  · cases hk
  · have hparent := h.closed k hk hpid
    rw [Table.stored?_erase, if_neg]
    · exact hparent
    · intro hkp
      rcases hclean with hroot | hnone
      · have hplace := h.linked.place k old hk (by rw [hkp]; exact hs)
        have hbid := (h.sound.of_stored? hk).1.bid_of_path (h.sound.of_stored? hs).1 hplace
        exact hmem ((mem_orphansOf h.sound).2 ⟨hroot, hk, hbid, hkp⟩)
      · exact hnone k hk hkp

theorem removed_closed (h : t.Whole) (hs : t.stored? old.nid = some old)
    (hclean : old.isBookRoot = true ∨ ∀ k, t.stored? k.nid = some k → k.pid ≠ old.nid)
    (hp : Promoted (t.erase old.nid) (orphansOf t old) touched t₁) :
    (t₁.setHasChildren old.pid (otherChildren t₁ old)).Closed := by
  have horphans := orphans_orphansOf h.sound hs h.linked
  exact (hp.closed h.sound.erase horphans (closedBut_erase h hs hclean)).setHasChildren
    (hp.sound h.sound.erase) _ _

end Arrange
end Outline
