import Outline.Proofs.Forest.Subtrees
import Outline.Proofs.Manager.Visible
import Outline.Proofs.Manager.Focus

/-!
What a viewer is told of a page and all below it, and what of the whole book.

The rows below a page are found by their paths and made into a forest of their own. In a consistent
table that forest is the tree of the page in the forest of its book, also for a viewer, as long as
the viewer is shown all pages above it.
-/
namespace Outline
set_option autoImplicit false

namespace Table

variable {t : Table} {l : Link}

/-- Links in the order of their paths are known by which they are. -/
theorem eq_of_mem_iff {as bs : List Link} (ha : as.Pairwise fun a b => a.path < b.path)
    (hb : bs.Pairwise fun a b => a.path < b.path) (h : ∀ l, l ∈ as ↔ l ∈ bs) : as = bs := by
  have hdistinct : ∀ ls : List Link, ls.Pairwise (fun a b => a.path < b.path) → ls.Nodup :=
    fun ls hls => hls.imp fun {a b} (hlt : a.path < b.path) (heq : a = b) =>
      List.lt_irrefl _ (heq ▸ hlt)
  refine List.Perm.eq_of_pairwise (fun a b _ _ hab hba => ?_) ha hb
    ((List.perm_ext_iff_of_nodup (hdistinct as ha) (hdistinct bs hb)).2 h)
  exact absurd hba (BookForest.path_lt_asymm hab)

/-- The rows within a page are its own and those below its path in the book. -/
theorem chosen_within (h : t.Whole) (hl : t.stored? l.nid = some l) :
    t.chosen ((Query.book l.bid).within l) =
      l :: BookForest.Preordered.allBelow l.path (t.chosen (Query.book l.bid)) := by
  have hs := h.sound
  have hls := (hs.of_stored? hl).1
  have hmem : ∀ x, x ∈ BookForest.Preordered.allBelow l.path (t.chosen (Query.book l.bid)) ↔
      (t.stored? x.nid = some x ∧ x.bid = l.bid) ∧ l.path <+: x.path.dropLast := by
    intro x
    rw [BookForest.Preordered.allBelow, List.mem_filter, mem_chosen_book hs, decide_eq_true_iff]
  apply eq_of_mem_iff (pairwise_chosen hs _)
  · refine List.pairwise_cons.2 ⟨fun x hx => ?_, (pairwise_chosen hs _).sublist List.filter_sublist⟩
    obtain ⟨⟨hx, _⟩, hpre⟩ := (hmem x).1 hx
    exact List.lt_of_le_of_lt hpre.le
      (BookForest.dropLast_lt (hs.of_stored? hx).1.path_ne_nil)
  · intro x
    rw [mem_chosen hs, List.mem_cons, hmem]
    constructor
    · rintro ⟨hx, hw⟩
      have hxs := (hs.of_stored? hx).1
      obtain ⟨hbid, hpre⟩ := (Query.wants_within hxs hls).1 hw
      rcases Nat.lt_or_eq_of_le hpre.length_le with hlt | heq
      · refine .inr ⟨⟨hx, hbid⟩, ?_⟩
        rw [List.dropLast_eq_take, List.prefix_take_iff]
        exact ⟨hpre, by omega⟩
      · have hpath := hpre.eq_of_length heq
        rw [← hxs.getLast_path, ← hpath, hls.getLast_path, hl] at hx
        exact .inl (Option.some.inj hx).symm
    · rintro (rfl | ⟨⟨hx, hbid⟩, hpre⟩)
      · exact ⟨hl, (Query.wants_within hls hls).2 ⟨rfl, List.prefix_rfl⟩⟩
      · exact ⟨hx, (Query.wants_within (hs.of_stored? hx).1 hls).2
          ⟨hbid, hpre.trans (List.dropLast_prefix _)⟩⟩

end Table

namespace Manager

variable {m : Manager} {l : Link} {viewer : Viewer}

theorem subtree_anew (h : m.table.Sound) (hl : m.table.stored? l.nid = some l) (viewer : Viewer) :
    ∃ m', subtree l.nid viewer { m with cache := .empty } =
      .ok (forViewer m.content viewer ((Wanted.below l).fresh m.table)) m' := by
  have hlook : look (·.link? l.nid) { m with cache := .empty } =
      .ok (some l) { m with cache := .empty } := look_of_ok (by rw [Table.link?_eq h, hl])
  obtain ⟨events, hkept⟩ := Wanted.kept_below { m with cache := .empty } h l
  exact ⟨_, (bind_of_ok hlook).trans ((bind_of_ok hkept).trans rfl)⟩

/-- The forest below a page, made of its own rows, is the tree of the page in the whole book. -/
theorem fresh_below (h : m.table.Whole) (hl : m.table.stored? l.nid = some l) :
    (Wanted.below l).fresh m.table = (wholeBook m l.bid).treesAt l.nid := by
  have hs := h.sound
  have hrow : l ∈ m.table.chosen (Query.book l.bid) := (Table.mem_chosen_book hs).2 ⟨hl, rfl⟩
  have hpre := h.preordered_book l.bid
  have hdepth : ∀ x ∈ l :: BookForest.Preordered.allBelow l.path
      (m.table.chosen (Query.book l.bid)), l.depth ≤ x.depth := by
    rintro x (_ | ⟨_, hx⟩)
    · exact Nat.le_refl _
    · exact Nat.le_of_lt (hpre.allBelow_of_mem hrow hx)
  rw [Wanted.fresh, Table.chosen_within h hl, BookForest.build, BookForest.rowsFrom_eq_self hdepth,
    hpre.ofRows_allBelow hrow, wholeBook, hpre.treesAt_ofRows (Table.nodup_chosen hs _) hrow]
  rfl

theorem mem_shown (h : m.table.Whole) (hl : m.table.stored? l.nid = some l)
    (hshown : ∀ id ∈ l.path, m.content.shows viewer id = true) :
    l ∈ ((wholeBook m l.bid).withTitles (m.content.titleFor? viewer)).links := by
  have hvalid : ∀ k ∈ m.table.chosen (Query.book l.bid), k.Valid :=
    fun k hk => (Table.sound_of_mem_chosen h.sound hk).valid
  rw [wholeBook, BookForest.links_withTitles_ofRows (h.preordered_book l.bid) hvalid]
  refine List.mem_filter.2 ⟨(Table.mem_chosen_book h.sound).2 ⟨hl, rfl⟩, ?_⟩
  refine List.all_eq_true.2 fun id hid => ?_
  rw [Content.isSome_titleFor?]
  exact hshown id (List.mem_of_mem_drop hid)

theorem treesAt_forViewer (h : m.table.Whole) (hl : m.table.stored? l.nid = some l)
    (habove : ∀ id ∈ l.path.dropLast, m.content.shows viewer id = true) :
    (forViewer m.content viewer (wholeBook m l.bid)).treesAt l.nid =
      forViewer m.content viewer ((wholeBook m l.bid).treesAt l.nid) := by
  have hdistinct : ((wholeBook m l.bid).links.map Link.nid).Nodup := by
    rw [wholeBook, BookForest.links_ofRows]
    exact Table.nodup_chosen h.sound _
  have hleft := (BookForest.links_withTitles (m.content.titleFor? viewer)
    (wholeBook m l.bid)).map Link.nid
  rw [forViewer, forViewer, BookForest.treesAt_sort (hdistinct.sublist hleft),
    BookForest.treesAt_withTitles hdistinct]
  intro _ htitle
  rw [Content.isSome_titleFor?] at htitle
  refine List.mem_map_of_mem (mem_shown h hl fun id hid => ?_)
  rw [(h.sound.of_stored? hl).1.valid.path_eq, List.mem_append, List.mem_singleton] at hid
  rcases hid with hid | rfl
  · exact habove id hid
  · exact htitle

/-- In a consistent table, whatever the content and whoever the viewer is, what is told of a page
and all below it is the tree of that page in what is told of its book, as long as the viewer is shown
all pages above it: the same items with the same links, titles and marks, in the same order. It is
one tree when the viewer is shown the page, and nothing otherwise. -/
theorem subtree_eq_treesAt (m : Manager) (h : m.table.Consistent) (nid : PageId) (l : Link)
    (hl : m.table.link? nid = .ok (some l)) (viewer : Viewer)
    (habove : ∀ id ∈ l.path.dropLast, m.content.shows viewer id = true) :
    ∃ f m₁ g m₂, bookForest l.bid none none viewer { m with cache := .empty } = .ok f m₁ ∧
      subtree nid viewer { m with cache := .empty } = .ok g m₂ ∧
      g = f.treesAt nid ∧
      (m.content.shows viewer nid = true →
        ∃ title below, g = .cons ⟨l, some title, false⟩ below .nil) ∧
      (m.content.shows viewer nid = false → g = .nil) := by
  have hw := h.whole
  have hstored : m.table.stored? nid = some l := by
    rw [Table.link?_eq hw.sound] at hl
    exact Except.ok.inj hl
  obtain ⟨_, rfl⟩ := hw.sound.of_stored? hstored
  obtain ⟨m₁, hbook⟩ := bookForest_whole hw l.bid viewer
  obtain ⟨m₂, hsubtree⟩ := subtree_anew hw.sound hstored viewer
  rw [fresh_below hw hstored] at hsubtree
  have hbare : (wholeBook m l.bid).treesAt l.nid = .cons ⟨l, none, false⟩ _ .nil :=
    (hw.preordered_book l.bid).treesAt_ofRows (Table.nodup_chosen hw.sound _)
      ((Table.mem_chosen_book hw.sound).2 ⟨hstored, rfl⟩) _
  refine ⟨_, m₁, _, m₂, hbook, hsubtree, (treesAt_forViewer hw hstored habove).symm, ?_, ?_⟩
  · intro hshown
    rw [← Content.isSome_titleFor?, Option.isSome_iff_exists] at hshown
    obtain ⟨title, htitle⟩ := hshown
    rw [hbare, forViewer, BookForest.withTitles, htitle]
    exact ⟨title, _, BookForest.sort_one _ _⟩
  · intro hhidden
    rw [← Content.isSome_titleFor?, Option.isSome_eq_false_iff, Option.isNone_iff_eq_none]
      at hhidden
    rw [hbare, forViewer, BookForest.withTitles, hhidden]
    exact BookForest.sort_nil

/-- A book with two levels below one of its pages, whose order is not that of ids, and with a page
there that is not published. -/
def reordered : Manager where
  table := [.ofLink (.along [5] true 0), .ofLink (.along [5, 3] true 0),
    .ofLink (.along [5, 3, 1] false 0), .ofLink (.along [5, 3, 8] true 0),
    .ofLink (.along [5, 3, 8, 2] false 0), .ofLink (.along [5, 3, 9] false (-1)),
    .ofLink (.along [5, 7] false 0)].foldl Table.put .empty
  content := ⟨[(5, ⟨"Five", true⟩), (3, ⟨"Three", true⟩), (1, ⟨"One", true⟩),
    (8, ⟨"Eight", false⟩), (2, ⟨"Two", true⟩), (7, ⟨"Seven", true⟩), (9, ⟨"Nine", true⟩)]⟩

/-- Of the page with two levels below it everyone is told one tree, that in the whole book. -/
theorem subtree_eq_treesAt_reordered :
    (reordered.table.Consistent ∧ reordered.table.link? 3 = .ok (some (.along [5, 3] true 0)) ∧
      ∀ id ∈ (Link.along [5, 3] true 0).path.dropLast,
        reordered.content.shows .everyone id = true) ∧
    ∃ f m₁ g m₂, bookForest 5 none none .everyone { reordered with cache := .empty } = .ok f m₁ ∧
      subtree 3 .everyone { reordered with cache := .empty } = .ok g m₂ ∧ g = f.treesAt 3 ∧
      ∃ title below, g = .cons ⟨.along [5, 3] true 0, some title, false⟩ below .nil := by
  have hconsistent : reordered.table.Consistent := by decide +kernel
  have hlink : reordered.table.link? 3 = .ok (some (.along [5, 3] true 0)) := by decide +kernel
  have habove : ∀ id ∈ (Link.along [5, 3] true 0).path.dropLast,
      reordered.content.shows .everyone id = true := by
    rw [show (Link.along [5, 3] true 0).path.dropLast = [5] from by decide, List.forall_mem_singleton]
    decide
  obtain ⟨f, m₁, g, m₂, hbook, hsubtree, heq, hshown, _⟩ :=
    subtree_eq_treesAt reordered hconsistent 3 (.along [5, 3] true 0) hlink .everyone habove
  exact ⟨⟨hconsistent, hlink, habove⟩, f, m₁, g, m₂, hbook, hsubtree, heq,
    hshown (by decide +kernel)⟩

end Manager
end Outline
