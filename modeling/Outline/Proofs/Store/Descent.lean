import Outline.Proofs.Store.Holds

/-!
Pages below a page, found by the parents that rows name.

A path is what is stored of the way to a page, and the parents are another record of it. In a whole
table the two lead to the same pages, so what is found below a page by its path, and how deep that
reaches, is what lies below it by the parents.
-/
namespace Outline
set_option autoImplicit false

namespace Table

/-- Whether a page is a given one, or its row names a parent of which this holds. -/
inductive Descends (t : Table) (top : PageId) : PageId → Prop where
  | self : Descends t top top
  | child {r : Row} {pid : PageId} (row : r ∈ t.rows) (names : r.pid = .int pid)
      (parent : Descends t top pid) : Descends t top r.nid

variable {t : Table} {top k old : Link} {nid x : PageId}

/-- Only a page that some row names has other pages below it. -/
theorem Descends.eq_or_named (h : t.Descends nid x) :
    x = nid ∨ ∃ r ∈ t.rows, r.pid = .int nid := by
  induction h with
  | self => exact .inl rfl
  | @child r pid row names _ ih =>
    rcases ih with rfl | hnamed
    · exact .inr ⟨r, row, names⟩
    · exact .inr hnamed

/-- What lies below a stored page is stored, and has that page on its path. -/
theorem Descends.mem_path (hd : t.Descends top.nid x) (h : t.Whole)
    (htop : t.stored? top.nid = some top) : ∃ k, t.stored? x = some k ∧ top.nid ∈ k.path := by
  induction hd with
  | self => exact ⟨top, htop, (h.sound.of_stored? htop).1.nid_mem_path⟩
  | child row names _ ih =>
    obtain ⟨p, hp, hmem⟩ := ih
    obtain ⟨k, hk, rfl⟩ := h.sound.mem_rows_iff.1 row
    obtain rfl : k.pid = _ := Cell.int.inj names
    refine ⟨k, hk, ?_⟩
    rw [h.linked.place k p hk hp]
    exact List.mem_append_left _ hmem

theorem Whole.descends_of_mem (h : t.Whole) :
    ∀ k, t.stored? k.nid = some k → nid ∈ k.path → t.Descends nid k.nid := by
  have hself : ∀ k : Link, nid = k.nid → t.Descends nid k.nid := by
    rintro k rfl
    exact .self
  refine h.induction ?_ ?_
  · intro k hk hup hmem
    rw [(h.sound.of_stored? hk).1.valid.path_eq, hup, List.nil_append, List.mem_singleton] at hmem
    exact hself k hmem
  · intro k p hk hp hup hparent hmem
    rw [(h.sound.of_stored? hk).1.valid.path_eq, List.mem_append, List.mem_singleton, ← hup] at hmem
    rcases hmem with hmem | heq
    · have hpid := (h.dropLast_path_eq_iff hk hp).1 hup.symm
      exact .child (h.sound.row_mem hk).1 (congrArg Cell.int hpid) (hparent hmem)
    · exact hself k heq

/-- A stored page lies below another one by its parents exactly when it does by its path. -/
theorem Whole.descends_iff (h : t.Whole) (htop : t.stored? top.nid = some top)
    (hk : t.stored? k.nid = some k) : t.Descends top.nid k.nid ↔ top.nid ∈ k.path := by
  constructor
  · intro hd
    obtain ⟨found, hfound, hmem⟩ := hd.mem_path h htop
    rw [hk] at hfound
    cases hfound
    exact hmem
  · exact h.descends_of_mem k hk

/-- The pages that are found by the path of a page are itself and those below it by their parents. -/
theorem Whole.mem_pagesWithin_iff (h : t.Whole) (htop : t.stored? top.nid = some top) :
    k ∈ t.pagesWithin top ↔ t.stored? k.nid = some k ∧ t.Descends top.nid k.nid := by
  have hts := (h.sound.of_stored? htop).1
  rw [mem_pagesWithin h.sound]
  refine and_congr_right fun hk => ?_
  have hks := (h.sound.of_stored? hk).1
  rw [Query.wants_within hks hts, h.descends_iff htop hk]
  constructor
  · rintro ⟨_, hpre⟩
    exact hpre.subset hts.nid_mem_path
  · intro hmem
    have hpre := h.path_of_mem htop k hk hmem
    exact ⟨(hks.bid_of_starts hts hpre).symm, hpre⟩

theorem Whole.self_mem_pagesWithin (h : t.Whole) (htop : t.stored? top.nid = some top) :
    top ∈ t.pagesWithin top :=
  (h.mem_pagesWithin_iff htop).2 ⟨htop, .self⟩

/-- Nothing lies below a page that is not marked. -/
theorem Whole.deepest_of_unmarked (h : t.Whole) (hs : t.stored? old.nid = some old)
    (hmark : old.hasChildren = false) : t.deepest old = old.depth := by
  have hown := depth_le_deepest (h.self_mem_pagesWithin hs)
  refine Nat.le_antisymm (deepest_le_of (Nat.le_refl _) fun k hk => ?_) hown
  obtain ⟨hk, hd⟩ := (h.mem_pagesWithin_iff hs).1 hk
  rcases hd.eq_or_named with heq | hnamed
  · rw [heq, hs] at hk
    cases hk
    exact Nat.le_refl _
  · rw [h.sound.named_iff] at hnamed
    rw [(h.linked.flag old hs (h.sound.of_stored? hs).1.nid_ne_zero).2 hnamed] at hmark
    cases hmark

/-- In a consistent table, the query for what lies within a page finds that page and just the pages
from which it is reached by going from parent to parent, each of them once; and the depth that is
found for it is the greatest of theirs. -/
theorem select_within (h : t.Consistent) (nid : PageId) (l : Link)
    (hl : t.link? nid = .ok (some l)) :
    ∃ links deepest, t.select ((Query.book l.bid).within l) = .ok links ∧
      (links.map Link.nid).Nodup ∧
      (∀ k, k ∈ links ↔ t.link? k.nid = .ok (some k) ∧ t.Descends nid k.nid) ∧
      t.maxDepthWithin l = .ok deepest ∧
      (∃ k ∈ links, k.depth = deepest) ∧ ∀ k ∈ links, k.depth ≤ deepest := by
  have hw := h.whole
  rw [link?_ok_iff hw.sound] at hl
  obtain ⟨_, rfl⟩ := hw.sound.of_stored? hl
  have hfound : ∀ k, k ∈ t.chosen ((Query.book l.bid).within l) ↔ k ∈ t.pagesWithin l := by
    intro k
    rw [mem_chosen hw.sound, mem_pagesWithin hw.sound]
  obtain ⟨k, hk, hdepth⟩ := exists_deepest (hw.self_mem_pagesWithin hl)
  refine ⟨_, _, select_eq hw.sound _, nodup_chosen hw.sound _, fun k => ?_,
    maxDepthWithin_eq hw.sound l, ⟨k, (hfound k).2 hk, hdepth⟩,
    fun k hk => depth_le_deepest ((hfound k).1 hk)⟩
  rw [hfound, hw.mem_pagesWithin_iff hl, link?_ok_iff hw.sound]

/-- A book in which a page has pages two levels below it, some with smaller ids than its own. -/
def deepShelf : Table :=
  [.ofLink (.along [5] true 0), .ofLink (.along [5, 3] true 0), .ofLink (.along [5, 3, 8] true 0),
    .ofLink (.along [5, 3, 8, 2] false 0), .ofLink (.along [5, 3, 1] false 0),
    .ofLink (.along [5, 7] false 0)].foldl put .empty

/-- With that page the one two levels below it is found, and its sibling is not. -/
theorem select_within_deepShelf :
    (deepShelf.Consistent ∧ deepShelf.link? 3 = .ok (some (.along [5, 3] true 0))) ∧
    ∃ links, deepShelf.select ((Query.book 5).within (.along [5, 3] true 0)) = .ok links ∧
      deepShelf.Descends 3 2 ∧ .along [5, 3, 8, 2] false 0 ∈ links ∧
      ¬ deepShelf.Descends 3 7 ∧ .along [5, 7] false 0 ∉ links ∧
      ∃ deepest, deepShelf.maxDepthWithin (.along [5, 3] true 0) = .ok deepest ∧ 4 ≤ deepest := by
  have hconsistent : deepShelf.Consistent := by decide +kernel
  have hlink : deepShelf.link? 3 = .ok (some (.along [5, 3] true 0)) := by decide +kernel
  have height : deepShelf.Descends 3 8 :=
    .child (r := .ofLink (.along [5, 3, 8] true 0)) (by decide +kernel) rfl .self
  have htwo : deepShelf.Descends 3 2 :=
    .child (r := .ofLink (.along [5, 3, 8, 2] false 0)) (by decide +kernel) rfl height
  have hseven : ¬ deepShelf.Descends 3 7 := by
    have htop : deepShelf.stored? (Link.along [5, 3] true 0).nid =
        some (.along [5, 3] true 0) := by decide +kernel
    have hbeside : deepShelf.stored? (Link.along [5, 7] false 0).nid =
        some (.along [5, 7] false 0) := by decide +kernel
    have hiff : deepShelf.Descends 3 7 ↔ 3 ∈ (Link.along [5, 7] false 0).path :=
      hconsistent.whole.descends_iff htop hbeside
    rw [hiff]
    decide
  obtain ⟨links, deepest, hselect, _, hmem, hdeepest, _, hmost⟩ :=
    select_within hconsistent 3 (.along [5, 3] true 0) hlink
  have hlowest : Link.along [5, 3, 8, 2] false 0 ∈ links :=
    (hmem _).2 ⟨by decide +kernel, htwo⟩
  exact ⟨⟨hconsistent, hlink⟩, links, hselect, htwo, hlowest, hseven,
    fun hfound => hseven ((hmem _).1 hfound).2, deepest, hdeepest, hmost _ hlowest⟩

end Table

end Outline
