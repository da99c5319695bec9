import Outline.Forest.Shown
import Outline.Proofs.Manager.Trimmed

/-!
How the pages of a book are displayed: open, closed or without children.

A page is displayed by its mark and by whether anything is told below it. In a consistent table the
two never disagree. What is told below a page are its own children, so whatever is left out around a
page in focus, by a limit or by the viewer's rights, a page is open exactly when one of its children
is told.
-/
namespace Outline
set_option autoImplicit false

namespace Forest

variable {α : Type} {f : Forest α} {item : α}

/-- How the items of a forest lie, by their ids: each, in preorder, with the ids of those directly
below it and the ids of all below it. -/
def layout (id : α → PageId) (f : Forest α) : List (PageId × List PageId × List PageId) :=
  f.subtrees.map fun tree => (id tree.1, tree.2.tops.map id, tree.2.preorder.map id)

theorem isEmpty_iff : f.isEmpty = true ↔ f.tops = [] := by
  cases f <;> simp [isEmpty, tops]

/-- An item is at the top, or directly below another one. -/
theorem mem_tops_or_below (h : item ∈ f.preorder) :
    item ∈ f.tops ∨ ∃ tree ∈ f.subtrees, item ∈ tree.2.tops := by
  induction f with
  | nil => cases h
  | cons first below rest ihbelow ihrest =>
    rw [preorder, List.mem_cons, List.mem_append] at h
    rw [tops, subtrees]
    rcases h with rfl | h | h
    · exact .inl List.mem_cons_self
    · rcases ihbelow h with htop | ⟨tree, htree, hitem⟩
      · exact .inr ⟨_, List.mem_cons_self, htop⟩
      · exact .inr ⟨tree, List.mem_cons_of_mem _ (List.mem_append_left _ htree), hitem⟩
    · rcases ihrest h with htop | ⟨tree, htree, hitem⟩
      · exact .inl (List.mem_cons_of_mem _ htop)
      · exact .inr ⟨tree, List.mem_cons_of_mem _ (List.mem_append_right _ htree), hitem⟩

end Forest

namespace Openness

variable {hasChildren isEmpty : Bool}

theorem of_eq_leaf_iff : of hasChildren isEmpty = .leaf ↔ hasChildren = false := by
  cases hasChildren <;> cases isEmpty <;> simp [of]

theorem of_eq_expanded_iff :
    of hasChildren isEmpty = .expanded ↔ hasChildren = true ∧ isEmpty = false := by
  cases hasChildren <;> cases isEmpty <;> simp [of]

theorem of_eq_collapsed_iff :
    of hasChildren isEmpty = .collapsed ↔ hasChildren = true ∧ isEmpty = true := by
  cases hasChildren <;> cases isEmpty <;> simp [of]

end Openness

namespace BookForest

variable {f : BookForest} {t : Table} {rows : List Link} {k : Link} {tree : Item × BookForest}

section Displayed

theorem map_nid_tops_shownFrom (f : BookForest) (first : Bool) :
    (shownFrom first f).tops.map (·.nid) = f.tops.map (·.link.nid) := by
  induction f generalizing first with
  | nil => rfl
  | cons item below rest _ ih =>
    rw [shownFrom, Forest.tops, Forest.tops, List.map_cons, List.map_cons, ih]

theorem map_nid_preorder_shownFrom (f : BookForest) (first : Bool) :
    (shownFrom first f).preorder.map (·.nid) = f.links.map Link.nid := by
  induction f generalizing first with
  | nil => rfl
  | cons item below rest ihbelow ihrest =>
    rw [shownFrom, Forest.preorder, List.map_cons, List.map_append, ihbelow, ihrest, links_cons,
      List.map_cons, List.map_append]

/-- Pages are displayed where they lie in the forest. -/
theorem layout_shownFrom (f : BookForest) (first : Bool) :
    (shownFrom first f).layout (·.nid) = f.layout (·.link.nid) := by
  induction f generalizing first with
  | nil => rfl
  | cons item below rest ihbelow ihrest =>
    have hbelow : (shownFrom true below).preorder.map (·.nid) =
        below.preorder.map (·.link.nid) := by
      rw [map_nid_preorder_shownFrom, links, List.map_map]
      rfl
    have ihb := ihbelow true
    have ihr := ihrest false
    rw [Forest.layout, Forest.layout] at ihb ihr ⊢
    rw [shownFrom, Forest.subtrees, Forest.subtrees, List.map_cons, List.map_cons,
      List.map_append, List.map_append, ihb, ihr, map_nid_tops_shownFrom, hbelow]

/-- Each displayed page is one of the forest, with what is below it displayed below it. -/
theorem mem_subtrees_shownFrom {first : Bool} {displayed : ShownItem × Forest ShownItem}
    (h : displayed ∈ (shownFrom first f).subtrees) :
    ∃ tree ∈ f.subtrees, displayed.1.nid = tree.1.link.nid ∧
      displayed.1.openness = .of tree.1.link.hasChildren tree.2.isEmpty ∧
      displayed.2 = shown tree.2 := by
  induction f generalizing first with
  | nil => cases h
  | cons item below rest ihbelow ihrest =>
    rw [shownFrom, Forest.subtrees, List.mem_cons, List.mem_append] at h
    rcases h with rfl | h | h
    · exact ⟨(item, below), List.mem_cons_self, rfl, rfl, rfl⟩
    · obtain ⟨tree, htree, hsame⟩ := ihbelow h
      exact ⟨tree, List.mem_cons_of_mem _ (List.mem_append_left _ htree), hsame⟩
    · obtain ⟨tree, htree, hsame⟩ := ihrest h
      exact ⟨tree, List.mem_cons_of_mem _ (List.mem_append_right _ htree), hsame⟩

end Displayed

/-- Whether a forest is made of stored pages, each of them once and directly below its parent, or at
the top if it has none. -/
structure InPlace (t : Table) (f : BookForest) : Prop where
  stored : ∀ l ∈ f.links, t.stored? l.nid = some l
  distinct : (f.links.map Link.nid).Nodup
  tops : ∀ l ∈ f.tops.map Item.link, l.pid = 0
  below : ∀ tree ∈ f.subtrees, ∀ l ∈ tree.2.tops.map Item.link, l.pid = tree.1.link.nid

theorem Preordered.inPlace (h : Preordered [] rows) (ht : t.Whole)
    (hstored : ∀ l ∈ rows, t.stored? l.nid = some l) (hids : (rows.map Link.nid).Nodup)
    (active : PageId → Bool) : InPlace t (ofRows active rows) := by
  refine ⟨?_, ?_, ?_, ?_⟩
  · rw [links_ofRows]
    exact hstored
  · rw [links_ofRows]
    exact hids
  · intro l hl
    rw [h.tops_ofRows] at hl
    obtain ⟨hrow, htop⟩ := List.mem_filter.1 hl
    rw [← (ht.sound.of_stored? (hstored l hrow)).1.getLast_dropLast, of_decide_eq_true htop]
    rfl
  · intro tree htree l hl
    rw [h.tops_subtrees tree htree] at hl
    obtain ⟨hrow, hup⟩ := List.mem_filter.1 hl
    exact (ht.dropLast_path_eq_iff (hstored l hrow) (hstored _ (mem_of_mem_subtrees htree))).1
      (of_decide_eq_true hup)

/-- What is left for a viewer stays in its place. -/
theorem InPlace.shown (h : InPlace t f) (title? : PageId → Option String) :
    InPlace t (f.withTitles title?).sort where
  stored l hl := h.stored l (links_shown title? f hl)
  distinct := ((links_sort _).map _).nodup_iff.2
    (h.distinct.sublist ((links_withTitles title? f).map _))
  tops l hl := h.tops l (tops_shown title? f hl)
  below tree htree l hl := by
    obtain ⟨source, hsource, hlink, hbelow⟩ := mem_subtrees_shown htree
    rw [hbelow] at hl
    rw [hlink]
    exact h.below source hsource l (tops_shown title? source.2 hl)

section InPlace

theorem InPlace.stored_tree (h : InPlace t f) (htree : tree ∈ f.subtrees) :
    t.stored? tree.1.link.nid = some tree.1.link := by
  apply h.stored
  rw [links, ← Forest.map_fst_subtrees]
  exact List.mem_map_of_mem (List.mem_map_of_mem htree)

theorem mem_links_of_below (htree : tree ∈ f.subtrees) (hk : k ∈ tree.2.tops.map Item.link) :
    k ∈ f.links :=
  ((tree.2.tops_sublist.trans (Forest.preorder_sublist_of_mem_subtrees htree)).map _).subset hk

/-- What is directly below a page are rows that name it as their parent. -/
theorem InPlace.mem_rowsUnder (h : InPlace t f) (ht : t.Sound) (htree : tree ∈ f.subtrees)
    (hk : k ∈ tree.2.tops.map Item.link) : .ofLink k ∈ t.rowsUnder tree.1.link.nid := by
  have hstored := h.stored k (mem_links_of_below htree hk)
  refine List.mem_filter.2 ⟨(ht.row_mem hstored).1, ?_⟩
  rw [beq_iff_eq]
  exact congrArg Cell.int (h.below tree htree k hk)

/-- A row that names a page as its parent is told directly below it, or not at all. -/
theorem InPlace.mem_below (h : InPlace t f) (ht : t.Sound) (htree : tree ∈ f.subtrees) {r : Row}
    (hr : r ∈ t.rowsUnder tree.1.link.nid) (htold : r.nid ∈ f.links.map Link.nid) :
    r.nid ∈ tree.2.tops.map (·.link.nid) := by
  obtain ⟨hmem, hpid⟩ := List.mem_filter.1 hr
  obtain ⟨k, hk, rfl⟩ := ht.mem_rows_iff.1 hmem
  obtain ⟨l, hl, hnid⟩ := List.mem_map.1 htold
  obtain ⟨item, hitem, rfl⟩ := List.mem_map.1 hl
  have hsame : item.link = k := by
    have hstored := h.stored item.link hl
    rw [show item.link.nid = k.nid from hnid, hk] at hstored
    exact (Option.some.inj hstored).symm
  have hparent : item.link.pid = tree.1.link.nid := by
    rw [hsame]
    exact Cell.int.inj (beq_iff_eq.1 hpid)
  rcases Forest.mem_tops_or_below hitem with htop | ⟨other, hother, hbelow⟩
  · rw [h.tops _ (List.mem_map_of_mem htop)] at hparent
    exact absurd hparent.symm (ht.of_stored? (h.stored_tree htree)).1.nid_ne_zero
  · have hup := h.below other hother _ (List.mem_map_of_mem hbelow)
    rw [← eq_of_nid_eq h.distinct htree hother (hup.symm.trans hparent)]
    exact List.mem_map.2 ⟨item, hbelow, hnid⟩

theorem InPlace.hasChildren_iff (h : InPlace t f) (ht : t.Whole) (htree : tree ∈ f.subtrees) :
    tree.1.link.hasChildren = true ↔ t.rowsUnder tree.1.link.nid ≠ [] := by
  have hstored := h.stored_tree htree
  rw [ht.linked.mark_eq ht.sound hstored, List.any_eq_true]
  constructor
  · rintro ⟨r, hr, hpid⟩
    exact List.ne_nil_of_mem (List.mem_filter.2 ⟨hr, hpid⟩)
  · intro hne
    obtain ⟨r, hr⟩ := List.exists_mem_of_ne_nil _ hne
    exact ⟨r, List.mem_filter.1 hr⟩

/-- Something is told below a page when one of its children is told there. -/
theorem InPlace.isEmpty_eq_false_iff (h : InPlace t f) (ht : t.Sound) (htree : tree ∈ f.subtrees) :
    tree.2.isEmpty = false ↔
      ∃ r ∈ t.rowsUnder tree.1.link.nid, r.nid ∈ tree.2.tops.map (·.link.nid) := by
  rw [Bool.eq_false_iff, ne_eq, Forest.isEmpty_iff]
  constructor
  · intro hne
    obtain ⟨item, hitem⟩ := List.exists_mem_of_ne_nil _ hne
    exact ⟨_, h.mem_rowsUnder ht htree (List.mem_map_of_mem hitem),
      List.mem_map.2 ⟨item, hitem, rfl⟩⟩
  · rintro ⟨r, _, htold⟩ hnil
    rw [hnil] at htold
    cases htold

/-- Nothing is told below a page when none of its children is told anywhere. -/
theorem InPlace.isEmpty_eq_true_iff (h : InPlace t f) (ht : t.Sound) (htree : tree ∈ f.subtrees) :
    tree.2.isEmpty = true ↔
      ∀ r ∈ t.rowsUnder tree.1.link.nid, r.nid ∉ f.links.map Link.nid := by
  constructor
  · intro hempty r hr htold
    have hbelow := h.mem_below ht htree hr htold
    rw [Forest.isEmpty_iff.1 hempty] at hbelow
    cases hbelow
  · intro huntold
    rw [← Bool.not_eq_false, h.isEmpty_eq_false_iff ht htree]
    rintro ⟨r, hr, hbelow⟩
    obtain ⟨item, hitem, hnid⟩ := List.mem_map.1 hbelow
    refine huntold r hr (List.mem_map.2 ⟨item.link, ?_, hnid⟩)
    exact mem_links_of_below htree (List.mem_map_of_mem hitem)

end InPlace

end BookForest

namespace Manager

variable {m : Manager} {b : PageId} {focus : Option Link} {d : Option Nat}

theorem bookForest_inPlace (h : m.table.Whole) (b : PageId)
    (hfocus : ∀ k ∈ focus, m.table.link? k.nid = .ok (some k))
    (hd : ∀ limit ∈ d, limit ≤ Word.maxUnsigned32) (viewer : Viewer) :
    ∃ f m', bookForest b (focus.map Link.nid) d viewer { m with cache := .empty } = .ok f m' ∧
      BookForest.InPlace m.table f := by
  have hstored : ∀ k ∈ focus, m.table.stored? k.nid = some k :=
    fun k hk => (Table.link?_ok_iff h.sound).1 (hfocus k hk)
  have hselect : m.table.select (bookQuery b focus d) = .ok _ := Table.select_eq h.sound _
  obtain ⟨m', hrun⟩ := bookForest_anew viewer hfocus hselect
  refine ⟨_, m', hrun, ?_⟩
  rw [build_bookQuery h hstored hd]
  refine BookForest.InPlace.shown ?_ _
  refine ((h.preordered_book b).filter (keepsAbove_stays h hstored)).inPlace h ?_ ?_ _
  · intro l hl
    exact ((Table.mem_chosen_book h.sound).1 (List.mem_of_mem_filter hl)).1
  · exact (Table.nodup_chosen h.sound _).sublist (List.filter_sublist.map _)

/-- In a consistent table, whatever the content and whoever the viewer is, and around whatever page
in focus and down to whatever limit a book is told: the pages that are told are displayed, each where
it lies among the others. A page is displayed as a leaf exactly when no row names it as its parent, as
open exactly when a page that does is told directly below it, and as closed exactly when there are
such pages but none of them is told. Directly below a page no others are told than those that name it
as their parent. -/
theorem bookForest_openness (m : Manager) (h : m.table.Consistent) (b : PageId)
    (focus : Option Link) (hfocus : ∀ k ∈ focus, m.table.link? k.nid = .ok (some k))
    (d : Option Nat) (hd : ∀ limit ∈ d, limit ≤ Word.maxUnsigned32) (viewer : Viewer) :
    ∃ f m', bookForest b (focus.map Link.nid) d viewer { m with cache := .empty } = .ok f m' ∧
      (BookForest.shown f).preorder.map (·.nid) = f.links.map Link.nid ∧
      (BookForest.shown f).tops.map (·.nid) = f.tops.map (·.link.nid) ∧
      (BookForest.shown f).layout (·.nid) = f.layout (·.link.nid) ∧
      ∀ tree ∈ (BookForest.shown f).subtrees,
        (tree.1.openness = .leaf ↔ m.table.rowsUnder tree.1.nid = []) ∧
        (tree.1.openness = .expanded ↔
          ∃ r ∈ m.table.rowsUnder tree.1.nid, r.nid ∈ tree.2.tops.map (·.nid)) ∧
        (tree.1.openness = .collapsed ↔ m.table.rowsUnder tree.1.nid ≠ [] ∧
          ∀ r ∈ m.table.rowsUnder tree.1.nid,
            r.nid ∉ (BookForest.shown f).preorder.map (·.nid)) ∧
        ∀ item ∈ tree.2.tops, ∃ r ∈ m.table.rowsUnder tree.1.nid, r.nid = item.nid := by
  have hw := h.whole
  obtain ⟨f, m', hrun, hplace⟩ := bookForest_inPlace hw b hfocus hd viewer
  refine ⟨f, m', hrun, BookForest.map_nid_preorder_shownFrom f true,
    BookForest.map_nid_tops_shownFrom f true, BookForest.layout_shownFrom f true,
    fun displayed hdisplayed => ?_⟩
  obtain ⟨tree, htree, hnid, hopenness, hbelow⟩ := BookForest.mem_subtrees_shownFrom hdisplayed
  have hmark := hplace.hasChildren_iff hw htree
  have hopen := hplace.isEmpty_eq_false_iff hw.sound htree
  have hclosed := hplace.isEmpty_eq_true_iff hw.sound htree
  rw [hnid, hopenness, hbelow, BookForest.shown, BookForest.shown,
    BookForest.map_nid_tops_shownFrom, BookForest.map_nid_preorder_shownFrom,
    Openness.of_eq_leaf_iff, Openness.of_eq_expanded_iff, Openness.of_eq_collapsed_iff]
  refine ⟨?_, ?_, and_congr hmark hclosed, ?_⟩
  · rw [Bool.eq_false_iff, ne_eq, hmark, not_not]
  · refine ⟨fun hexpanded => hopen.1 hexpanded.2, fun htold => ⟨?_, hopen.2 htold⟩⟩
    obtain ⟨r, hr, _⟩ := htold
    exact hmark.2 (List.ne_nil_of_mem hr)
  · intro item hitem
    have hid : item.nid ∈ (BookForest.shownFrom true tree.2).tops.map (·.nid) :=
      List.mem_map_of_mem hitem
    rw [BookForest.map_nid_tops_shownFrom] at hid
    obtain ⟨source, hsource, hsame⟩ := List.mem_map.1 hid
    exact ⟨_, hplace.mem_rowsUnder hw.sound htree (List.mem_map_of_mem hsource), hsame⟩

/-- Around the page at the ninth level, that page and the one beside it are displayed as leaves, the
one above them as open, and the page beside the way to them as closed. -/
theorem bookForest_openness_ninthLevel :
    (ninthLevel.table.Consistent ∧
      (∀ k ∈ some ninthPage, ninthLevel.table.link? k.nid = .ok (some k)) ∧
      ∀ limit ∈ some 9, limit ≤ Word.maxUnsigned32) ∧
    ∃ f m', bookForest 1 (some 9) (some 9) .everyone { ninthLevel with cache := .empty } = .ok f m' ∧
      (BookForest.shown f).preorder.map (·.nid) = [1, 11, 2, 3, 4, 5, 6, 7, 8, 10, 9] ∧
      (∃ tree ∈ (BookForest.shown f).subtrees, tree.1.nid = 10 ∧ tree.1.openness = .leaf) ∧
      (∃ tree ∈ (BookForest.shown f).subtrees, tree.1.nid = 8 ∧ tree.1.openness = .expanded) ∧
      ∃ tree ∈ (BookForest.shown f).subtrees, tree.1.nid = 11 ∧ tree.1.openness = .collapsed := by
  have hconsistent : ninthLevel.table.Consistent := by decide +kernel
  have hfocus : ∀ k ∈ some ninthPage, ninthLevel.table.link? k.nid = .ok (some k) := by
    rintro _ ⟨⟩
    decide +kernel
  have hd : ∀ limit ∈ some 9, limit ≤ Word.maxUnsigned32 := by
    rintro _ ⟨⟩
    decide
  obtain ⟨f, m', hrun, hpages, _, _, hshown⟩ :=
    bookForest_openness ninthLevel hconsistent 1 (some ninthPage) hfocus (some 9) hd .everyone
  have htold : ((ninthLevel.table.select (bookQuery 1 (some ninthPage) (some 9))).map fun rows =>
      forViewer ninthLevel.content .everyone
        (BookForest.build (activePages (some ninthPage)).contains 1 rows)).map
      (·.links.map Link.nid) = .ok [1, 11, 2, 3, 4, 5, 6, 7, 8, 10, 9] := by cbv
  rw [bookForest_ninthLevel hrun] at htold
  have hids : (BookForest.shown f).preorder.map (·.nid) = [1, 11, 2, 3, 4, 5, 6, 7, 8, 10, 9] :=
    hpages.trans (Except.ok.inj htold)
  have hdisplayed : ∀ nid ∈ [1, 11, 2, 3, 4, 5, 6, 7, 8, 10, 9],
      ∃ tree ∈ (BookForest.shown f).subtrees, tree.1.nid = nid := by
    intro nid hnid
    rw [← hids] at hnid
    obtain ⟨item, hitem, rfl⟩ := List.mem_map.1 hnid
    obtain ⟨below, htree⟩ := Forest.exists_mem_subtrees hitem
    exact ⟨_, htree, rfl⟩
  have hten : ninthLevel.table.rowsUnder 10 = [] := by decide +kernel
  have height : ninthLevel.table.rowsUnder 8 =
      [.ofLink ninthPage, .ofLink (.along [1, 2, 3, 4, 5, 6, 7, 8, 10] false (-1))] := by
    decide +kernel
  have heleven : ninthLevel.table.rowsUnder 11 = [.ofLink (.along [1, 11, 12] false 0)] := by
    decide +kernel
  refine ⟨⟨hconsistent, hfocus, hd⟩, f, m', hrun, hids, ?_, ?_, ?_⟩
  · obtain ⟨tree, htree, hnid⟩ := hdisplayed 10 (by decide)
    exact ⟨tree, htree, hnid, (hshown tree htree).1.2 (by rw [hnid, hten])⟩
  · obtain ⟨tree, htree, hnid⟩ := hdisplayed 8 (by decide)
    obtain ⟨hleaf, _, hclosed, _⟩ := hshown tree htree
    rw [hnid, height] at hleaf hclosed
    refine ⟨tree, htree, hnid, ?_⟩
    -- It has children, and of them the page in focus is displayed.
    cases hopenness : tree.1.openness with
    | leaf => exact absurd (hleaf.1 hopenness) (List.cons_ne_nil _ _)
    | expanded => rfl
    | collapsed =>
      have hnone := (hclosed.1 hopenness).2 _ List.mem_cons_self
      rw [hids] at hnone
      exact absurd (by decide) hnone
  · obtain ⟨tree, htree, hnid⟩ := hdisplayed 11 (by decide)
    refine ⟨tree, htree, hnid, (hshown tree htree).2.2.1.2 ?_⟩
    rw [hnid, heleven, hids]
    exact ⟨List.cons_ne_nil _ _, by decide⟩

end Manager

end Outline
