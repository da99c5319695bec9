import Outline.Proofs.Arrange.Seats

/-!
What becomes of a book whose root is removed.

The children of the root become roots one after the other, each moved by the link it had while the
root was there. In the end every page of the book has the seat it had, but for the children of the
root, which are seated at the top. So all that lay below the root goes up one level.
-/
namespace Outline
set_option autoImplicit false

namespace Arrange

/-- What a table has become when the root of a book was removed: every other page of the book has
lost the root from its path, belongs to the book that its path then starts with, and keeps all
else. -/
structure Dissolved (t : Table) (root : PageId) (t' : Table) : Prop where
  consistent : t'.Consistent
  gone : t'.row? root = none
  pages : ∀ k, t.link? k.nid = .ok (some k) → k.bid = root → k.nid ≠ root →
    ∃ first below, k.path = root :: first :: below ∧
      t'.link? k.nid = .ok (some { k with
        bid := first
        pid := if k.pid = root then 0 else k.pid
        depth := k.depth - 1
        chain := Chain.ofList (first :: below) })
  others : ∀ x, (∀ k, t.link? x = .ok (some k) → k.bid ≠ root) → t'.row? x = t.row? x

section Promoted

variable {t t' : Table} {root k k' : Link} {touched : List PageId} (h : t.Whole)
  (hs : t.stored? root.nid = some root) (hroot : root.isBookRoot = true)
  (hp : Promoted (t.erase root.nid) (orphansOf t root) touched t')

include h hs hroot

/-- The children that become roots are all pages that name the root as their parent. -/
theorem mem_orphansOf_root (hk : t.stored? k.nid = some k) :
    k ∈ orphansOf t root ↔ k.pid = root.nid := by
  rw [mem_orphansOf h.sound]
  constructor
  · intro ⟨_, _, _, hpid⟩
    exact hpid
  · intro hpid
    have hplace := h.linked.place k root hk (by rw [hpid]; exact hs)
    exact ⟨hroot, hk,
      (h.sound.of_stored? hk).1.bid_of_path (h.sound.of_stored? hs).1 hplace, hpid⟩

include hp

/-- No page is left behind, and the top has no mark to write. -/
theorem Promoted.whole : t'.Whole := by
  have hsound := hp.sound h.sound.erase
  have hlinked := removed_linked h.sound hs h.linked hp
  have hclosed := removed_closed h hs (.inl hroot) hp
  rw [(h.isBookRoot_iff hs).1 hroot, setHasChildren_zero hsound] at hlinked hclosed
  exact ⟨hsound, hlinked, hclosed⟩

theorem Promoted.seat?_of_root (x : PageId) :
    t'.seat? x = if x = root.nid then none
      else (t.seat? x).map fun seat => (if seat.1 = root.nid then 0 else seat.1, seat.2) := by
  rw [hp.seat?_eq h.sound.erase (orphans_orphansOf h.sound hs h.linked), Table.seat?, Table.seat?,
    Table.stored?_erase]
  by_cases hx : x = root.nid
  · rw [if_pos hx, if_pos hx]
    split <;> rfl
  · rw [if_neg hx, if_neg hx]
    cases hk : t.stored? x with
    | none => split <;> rfl
    | some k =>
      obtain ⟨_, rfl⟩ := h.sound.of_stored? hk
      have hmem : k.nid ∈ (orphansOf t root).map Link.nid ↔ k.pid = root.nid := by
        rw [← mem_orphansOf_root h hs hroot hk, List.mem_map]
        constructor
        · intro hmem
          obtain ⟨c, hc, hcn⟩ := hmem
          rwa [eq_of_nid hk ((mem_orphansOf h.sound).1 hc).2.1 hcn] at hc
        · intro hmem
          exact ⟨k, hmem, rfl⟩
      rw [if_congr hmem rfl rfl]
      simp only [Option.map_some]
      split <;> rfl

theorem Promoted.seat?_of_stored? (hk : t.stored? k.nid = some k) (hne : k.nid ≠ root.nid) :
    t'.seat? k.nid = some (if k.pid = root.nid then 0 else k.pid, k.weight) := by
  rw [hp.seat?_of_root h hs hroot, if_neg hne, Table.seat?_of_stored? hk]
  rfl

theorem Promoted.hasChildren_eq (hk : t.stored? k.nid = some k) (hne : k.nid ≠ root.nid)
    (hk' : t'.stored? k.nid = some k') : k'.hasChildren = k.hasChildren := by
  have hw' := hp.whole h hs hroot
  have hnid := (hw'.sound.of_stored? hk').2
  have hkz := (h.sound.of_stored? hk).1.nid_ne_zero
  rw [Bool.eq_iff_iff, hw'.marked_iff_seat (hw'.sound.stored?_nid hk'), h.marked_iff_seat hk, hnid]
  simp only [hp.seat?_of_root h hs hroot]
  constructor
  · intro ⟨x, weight, hx⟩
    split at hx
    · cases hx
    · obtain ⟨⟨pid, _⟩, hseat, heq⟩ := Option.map_eq_some_iff.1 hx
      obtain ⟨hpid, rfl⟩ := Prod.mk.inj heq
      split at hpid
      · exact absurd hpid.symm hkz
      · exact ⟨x, _, by rw [hseat]; exact congrArg (fun pid => some (pid, _)) hpid⟩
  · intro ⟨x, weight, hx⟩
    refine ⟨x, weight, ?_⟩
    rw [if_neg, hx, Option.map_some, if_neg hne]
    -- The root is at the top, so it is no child of the page.
    intro heq
    rw [heq, Table.seat?_of_stored? hs, (h.isBookRoot_iff hs).1 hroot] at hx
    exact hkz (congrArg Prod.fst (Option.some.inj hx)).symm

theorem Promoted.pid_eq (hk : t.stored? k.nid = some k) (hne : k.nid ≠ root.nid)
    (hk' : t'.stored? k.nid = some k') : k'.pid = if k.pid = root.nid then 0 else k.pid := by
  have hseat := hp.seat?_of_stored? h hs hroot hk hne
  rw [Table.seat?_of_stored? hk'] at hseat
  exact congrArg Prod.fst (Option.some.inj hseat)

/-- From the path of a page of the book the root is gone. -/
theorem Promoted.path_eq_tail : ∀ k, t.stored? k.nid = some k → k.bid = root.nid →
    k.nid ≠ root.nid → ∀ k', t'.stored? k.nid = some k' → k'.path = k.path.tail := by
  have hw' := hp.whole h hs hroot
  refine h.induction ?_ ?_
  · intro k hk hup hbid hne
    have hks := (h.sound.of_stored? hk).1
    have htop : k.pid = 0 := by
      rw [← hks.getLast_dropLast, hup]
      rfl
    exact absurd ((hks.bid_of_top htop).symm.trans hbid) hne
  · intro k p hk hp₀ hup hparent hbid hne k' hk'
    obtain ⟨hks, _⟩ := h.sound.of_stored? hk
    obtain ⟨hps, _⟩ := h.sound.of_stored? hp₀
    obtain ⟨hks', hnid⟩ := hw'.sound.of_stored? hk'
    have hkp := (h.dropLast_path_eq_iff hk hp₀).1 hup.symm
    have hpath : k.path = p.path ++ [k.nid] := by
      rw [hup]
      exact hks.valid.path_eq
    have hkpid := hp.pid_eq h hs hroot hk hne hk'
    by_cases hpr : p.nid = root.nid
    · rw [hkp, if_pos hpr] at hkpid
      have htop := (h.sound.of_stored? hs).1.path_of_top ((h.isBookRoot_iff hs).1 hroot)
      rw [eq_of_nid hs hp₀ hpr, htop] at hpath
      rw [hks'.path_of_top hkpid, hnid, hpath]
      rfl
    · rw [hkp, if_neg hpr] at hkpid
      have hseat := hp.seat?_of_stored? h hs hroot hp₀ hpr
      obtain ⟨p', hp', _⟩ := Table.seat?_eq_some_iff.1 hseat
      have hplace := hw'.linked.place k' p' (hw'.sound.stored?_nid hk') (by rw [hkpid]; exact hp')
      rw [hplace, hnid, hparent ((hks.bid_of_path hps hpath).symm.trans hbid) hpr p' hp', hpath,
        List.tail_append_of_ne_nil hps.path_ne_nil]

theorem Promoted.stored?_of_bid (hk : t.stored? k.nid = some k) (hbid : k.bid = root.nid)
    (hne : k.nid ≠ root.nid) :
    ∃ first below, k.path = root.nid :: first :: below ∧
      t'.stored? k.nid = some { k with
        bid := first
        pid := if k.pid = root.nid then 0 else k.pid
        depth := k.depth - 1
        chain := Chain.ofList (first :: below) } := by
  have hks := (h.sound.of_stored? hk).1
  have hseat := hp.seat?_of_stored? h hs hroot hk hne
  obtain ⟨k', hk', hpid, hweight⟩ := Table.seat?_eq_some_iff.1 hseat
  obtain ⟨hks', hnid⟩ := (hp.whole h hs hroot).sound.of_stored? hk'
  have hpath := hp.path_eq_tail h hs hroot k hk hbid hne k' hk'
  have hmark := hp.hasChildren_eq h hs hroot hk hne hk'
  obtain ⟨below, hbelow⟩ := hks.bid_starts
  rw [hbid, List.singleton_append] at hbelow
  rw [← hbelow, List.tail_cons] at hpath
  cases below with
  | nil => exact absurd hpath hks'.path_ne_nil
  | cons first below =>
    refine ⟨first, below, hbelow.symm, ?_⟩
    have hbook : k'.bid = first := by rw [← hks'.head_path, hpath]; rfl
    have hdepth : k'.depth = k.depth - 1 := by
      rw [← hks'.length_path, ← hks.length_path, hpath, ← hbelow]
      rfl
    have hchain := hks'.chain_eq
    rw [hpath] at hchain
    rw [hk', ← hchain, ← hbook, ← hpid, ← hweight, ← hmark, ← hdepth, ← hnid]

/-- What is in no book of the root keeps its row. -/
theorem Promoted.row?_of_bid {x : PageId} (hx : ∀ k, t.stored? x = some k → k.bid ≠ root.nid) :
    t'.row? x = t.row? x := by
  have horphans := orphans_orphansOf h.sound hs h.linked
  have hrs := (h.sound.of_stored? hs).1
  have htop := (h.isBookRoot_iff hs).1 hroot
  have hxr : x ≠ root.nid := by
    intro heq
    rw [heq] at hx
    exact hx root hs (hrs.bid_of_top htop)
  have herase : (t.erase root.nid).stored? x = t.stored? x := by
    rw [Table.stored?_erase, if_neg hxr]
  rw [Table.row?_of_stored? (hp.sound h.sound.erase), Table.row?_of_stored? h.sound]
  cases hk : t.stored? x with
  | none => rw [hp.stored?_eq_none (herase.trans hk)]
  | some k =>
    obtain ⟨hks, rfl⟩ := h.sound.of_stored? hk
    rw [hp.kept h.sound.erase horphans (herase.trans hk)]
    intro hpre
    exact hx k hk ((hks.bid_of_starts hrs hpre).symm.trans (hrs.bid_of_top htop))

/-- Removing the root and making roots of its children dissolves the book. -/
theorem Promoted.dissolved : Dissolved t root.nid t' := by
  have hw' := hp.whole h hs hroot
  have hlink := Table.link?_eq h.sound
  have hlink' := Table.link?_eq hw'.sound
  constructor
  · exact Table.consistent_iff_whole.2 hw'
  · have hgone := hp.stored?_eq_none (x := root.nid) (by rw [Table.stored?_erase, if_pos rfl])
    rw [Table.row?_of_stored? hw'.sound, hgone]
    rfl
  · intro k hk hbid hne
    rw [hlink, Except.ok.injEq] at hk
    obtain ⟨first, below, hpath, hk'⟩ := hp.stored?_of_bid h hs hroot hk hbid hne
    exact ⟨first, below, hpath, by rw [hlink', hk']⟩
  · intro x hx
    simp only [hlink, Except.ok.injEq] at hx
    exact hp.row?_of_bid h hs hroot hx

end Promoted

end Arrange
end Outline
