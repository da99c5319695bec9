import Outline.Proofs.Forest.Visible
import Outline.Proofs.Manager.SharedKeys
import Outline.Proofs.Store.Forest

/-!
What a viewer is told of a whole book.

The rows of a book are found, made into a forest, stripped of what the viewer is not shown, and
sorted. In a consistent table this tells just the pages that the viewer is shown down to which all
others on the way are shown as well, each below its parent.
-/
namespace Outline.Manager
set_option autoImplicit false

variable {m : Manager} {b : PageId}

/-- Whether a viewer is shown the page of a row and all pages on the way to it. -/
def showsRow (m : Manager) (viewer : Viewer) (r : Row) : Bool :=
  r.link?.any fun l => l.path.all (m.content.shows viewer)

/-- The forest of a whole book as it is made anew. -/
def wholeBook (m : Manager) (b : PageId) : BookForest :=
  BookForest.ofRows (activePages none).contains (m.table.chosen (Query.book b))

theorem bookForest_whole (h : m.table.Whole) (b : PageId) (viewer : Viewer) :
    ∃ m', bookForest b none none viewer { m with cache := .empty } =
      .ok (forViewer m.content viewer (wholeBook m b)) m' := by
  have hselect : m.table.select (bookQuery b none none) =
      .ok (m.table.chosen (Query.book b)) := Table.select_eq h.sound _
  obtain ⟨m', hrun⟩ := bookForest_unfocused viewer hselect
  rw [h.build_book] at hrun
  exact ⟨m', hrun⟩

theorem links_forViewer (h : m.table.Whole) (viewer : Viewer) :
    ((forViewer m.content viewer (wholeBook m b)).links.map Row.ofLink).Perm
      ((m.table.rowsOf b).filter (m.showsRow viewer)) := by
  have hvalid : ∀ l ∈ m.table.chosen (Query.book b), l.Valid :=
    fun l hl => (h.sound.of_stored? ((Table.mem_chosen_book h.sound).1 hl).1).1.valid
  have hsame : ∀ l ∈ m.table.chosen (Query.book b),
      BookForest.titledFrom (m.content.titleFor? viewer) [] l =
        (m.showsRow viewer ∘ Row.ofLink) l := by
    intro l hl
    rw [Function.comp_apply, showsRow, Row.link?_ofLink (hvalid l hl), Option.any_some,
      BookForest.titledFrom, List.length_nil, List.drop_zero]
    simp only [Content.isSome_titleFor?]
  have hleft : ((wholeBook m b).withTitles (m.content.titleFor? viewer)).links =
      (m.table.chosen (Query.book b)).filter (m.showsRow viewer ∘ Row.ofLink) := by
    rw [wholeBook, BookForest.links_withTitles_ofRows (h.preordered_book b) hvalid,
      List.filter_congr hsame]
  refine ((BookForest.links_sort _).map Row.ofLink).trans ?_
  rw [hleft, ← List.filter_map]
  exact (Table.perm_chosen_book h.sound).filter _

/-- In a consistent table, whatever the content and whoever the viewer is, a whole book is told as
the pages that the viewer is shown down to which all others on the way are shown as well: each of
them once, with the title that its content has, and in the order of keys among its siblings; at the
top the root of the book, and below each page pages that name it as their parent. -/
theorem bookForest_visible (m : Manager) (h : m.table.Consistent) (b : PageId) (viewer : Viewer) :
    ∃ f m', bookForest b none none viewer { m with cache := .empty } = .ok f m' ∧
      (f.links.map Row.ofLink).Perm ((m.table.rowsOf b).filter (m.showsRow viewer)) ∧
      (∀ item ∈ f.preorder, ∃ info, m.content.info? item.link.nid = some info ∧
        item.title = some info.title) ∧
      (∀ item ∈ f.tops, item.link.nid = b ∧ item.link.pid = 0) ∧
      (∀ tree ∈ f.subtrees, ∀ item ∈ tree.2.tops, item.link.pid = tree.1.link.nid) ∧
      f.InOrder := by
  have hw := h.whole
  have hstored : ∀ l ∈ m.table.chosen (Query.book b), m.table.stored? l.nid = some l :=
    fun l hl => ((Table.mem_chosen_book hw.sound).1 hl).1
  obtain ⟨m', hrun⟩ := bookForest_whole hw b viewer
  refine ⟨_, m', hrun, links_forViewer hw viewer, ?_, ?_, ?_, ?_⟩
  · intro item hitem
    obtain ⟨title, htitle, hold⟩ :=
      BookForest.title_of_mem_withTitles ((BookForest.preorder_sort _).mem_iff.1 hitem)
    obtain ⟨_, hinfo⟩ := Content.titleFor?_eq_some_iff.1 htitle
    obtain ⟨info, hknown, rfl⟩ := Option.map_eq_some_iff.1 hinfo
    exact ⟨info, hknown, hold⟩
  · intro item hitem
    have htop := BookForest.tops_shown _ _ (List.mem_map_of_mem hitem)
    rw [wholeBook, (hw.preordered_book b).tops_ofRows] at htop
    obtain ⟨hpath, hnid⟩ := hw.path_of_children_nil htop
    have hsound := (hw.sound.of_stored? (hstored _ (List.mem_of_mem_filter htop))).1
    refine ⟨hnid, ?_⟩
    rw [← hsound.getLast_dropLast, hpath]
    rfl
  · intro tree htree item hitem
    obtain ⟨source, hsource, hlink, hbelow⟩ := BookForest.mem_subtrees_shown htree
    rw [hbelow] at hitem
    have htop := BookForest.tops_shown _ _ (List.mem_map_of_mem hitem)
    rw [(hw.preordered_book b).tops_subtrees source hsource] at htop
    obtain ⟨hrow, hup⟩ := List.mem_filter.1 htop
    rw [hlink]
    exact (hw.dropLast_path_eq_iff (hstored _ hrow)
      (hstored _ (BookForest.mem_of_mem_subtrees hsource))).1 (of_decide_eq_true hup)
  · apply BookForest.inOrder_shown
    rw [wholeBook, BookForest.links_ofRows]
    exact Table.nodup_chosen hw.sound _

/-- Two books. A page of the first one is not published, and lies above one that is. -/
def halfPublished : Manager where
  table := [.ofLink (.along [5] true 0), .ofLink (.along [5, 3] true 0),
    .ofLink (.along [5, 3, 1] false 0), .ofLink (.along [5, 7] false 0),
    .ofLink (.along [5, 9] false (-1)), .ofLink (.along [2] false 0)].foldl Table.put .empty
  content := ⟨[(5, ⟨"Five", true⟩), (3, ⟨"Three", false⟩), (1, ⟨"One", true⟩),
    (7, ⟨"Seven", true⟩), (9, ⟨"Nine", true⟩), (2, ⟨"Two", true⟩)]⟩

/-- Of the first book, someone who may not see the second one is told the root and two pages. -/
theorem bookForest_visible_halfPublished :
    halfPublished.table.Consistent ∧
    ∃ f m', bookForest 5 none none (.allBut [2]) { halfPublished with cache := .empty } =
        .ok f m' ∧
      (f.links.map Row.ofLink).Perm [.ofLink (.along [5] true 0), .ofLink (.along [5, 7] false 0),
        .ofLink (.along [5, 9] false (-1))] ∧ f.InOrder := by
  have hconsistent : halfPublished.table.Consistent := by decide +kernel
  obtain ⟨f, m', hrun, hlinks, _, _, _, horder⟩ :=
    bookForest_visible halfPublished hconsistent 5 (.allBut [2])
  have hrows : (halfPublished.table.rowsOf 5).filter (halfPublished.showsRow (.allBut [2])) =
      [.ofLink (.along [5] true 0), .ofLink (.along [5, 7] false 0),
        .ofLink (.along [5, 9] false (-1))] := by decide +kernel
  rw [hrows] at hlinks
  exact ⟨hconsistent, f, m', hrun, hlinks, horder⟩

end Outline.Manager
