import Outline.Proofs.Store.Consistent
import Outline.Proofs.Store.Ordered

/-!
The forest of a book: the tree of its root, in which below each page lie the pages that name it as
their parent.
-/
namespace Outline
set_option autoImplicit false

namespace Table

variable {t : Table} {b : PageId} {k p : Link}

/-- The rows of a book, in ascending order of ids. -/
def rowsOf (t : Table) (bid : PageId) : List Row := t.rows.filter (·.bid == .int bid)

/-- The rows that name a page as their parent, in ascending order of ids. -/
def rowsUnder (t : Table) (pid : PageId) : List Row := t.rows.filter (·.pid == .int pid)

/-- Rows in ascending order of ids are those of a table with a property when they have the same
members. -/
theorem eq_filter_of_mem {rs : List Row} {q : Row → Bool} (hrs : rs.Pairwise fun a b => a.nid < b.nid)
    (h : ∀ r, r ∈ rs ↔ r ∈ t.rows ∧ q r = true) : rs = t.rows.filter q := by
  have hsame : (⟨rs, hrs⟩ : Table) = ⟨t.rows.filter q, t.ordered.filter _⟩ := by
    apply ext_mem
    intro r
    rw [List.mem_filter, h]
  exact Table.mk.inj hsame

/-- Siblings are in the order of their ids. -/
theorem lt_of_concat_lt {up : List PageId} {x y : PageId} (h : up ++ [x] < up ++ [y]) : x < y := by
  induction up with
  | nil => simpa [List.cons_lt_cons_iff] using h
  | cons z up ih =>
    rcases List.cons_lt_cons_iff.1 h with hz | ⟨_, hlt⟩
    · exact absurd hz Int64.lt_irrefl
    · exact ih hlt

theorem wants_book (r : Row) : (Query.book b).wants r = (r.bid == .int b) := by
  simp [Query.wants, Query.book, Query.startsWith]

theorem perm_chosen_book (h : t.Sound) :
    ((t.chosen (Query.book b)).map Row.ofLink).Perm (t.rowsOf b) := by
  rw [map_ofLink_chosen h, wantedRows, rowsOf, ← funext wants_book]
  exact List.mergeSort_perm _ _

theorem mem_chosen_book (h : t.Sound) :
    k ∈ t.chosen (Query.book b) ↔ t.stored? k.nid = some k ∧ k.bid = b := by
  rw [mem_chosen h, wants_book]
  simp [Row.ofLink]

/-- Without a parent a page lies at the top, along a path of its own. -/
theorem Whole.dropLast_path (h : t.Whole) (hk : t.stored? k.nid = some k) :
    k.path.dropLast = [] ∨ ∃ p, t.stored? k.pid = some p ∧ p.bid = k.bid ∧
      p.path = k.path.dropLast := by
  have hks := (h.sound.of_stored? hk).1
  by_cases hpid : k.pid = 0
  · rw [hks.path_of_top hpid]
    exact .inl rfl
  · obtain ⟨p, hp⟩ := Option.isSome_iff_exists.1 (h.closed k hk hpid)
    have hplace := h.linked.place k p hk hp
    refine .inr ⟨p, hp, (hks.bid_of_path (h.sound.of_stored? hp).1 hplace).symm, ?_⟩
    rw [hplace, List.dropLast_concat]

theorem Whole.preordered_book (h : t.Whole) (b : PageId) :
    BookForest.Preordered [] (t.chosen (Query.book b)) := by
  have hs := h.sound
  refine ⟨pairwise_chosen hs _, ?_, ?_, ?_⟩
  · intro l hl
    exact ⟨(hs.of_stored? ((mem_chosen_book hs).1 hl).1).1.path_ne_nil, List.nil_prefix⟩
  · intro l hl
    obtain ⟨hstored, rfl⟩ := (mem_chosen_book hs).1 hl
    rcases h.dropLast_path hstored with htop | ⟨p, hp, hpb, hpp⟩
    · exact .inl htop
    · exact .inr ⟨p, (mem_chosen_book hs).2 ⟨hs.stored?_nid hp, hpb⟩, hpp⟩
  · intro l hl
    exact (hs.of_stored? ((mem_chosen_book hs).1 hl).1).1.length_path

/-- A page is directly below another one's path when it names that one as its parent. -/
theorem Whole.dropLast_path_eq_iff (h : t.Whole) (hk : t.stored? k.nid = some k)
    (hp : t.stored? p.nid = some p) : k.path.dropLast = p.path ↔ k.pid = p.nid := by
  have hks := (h.sound.of_stored? hk).1
  have hps := (h.sound.of_stored? hp).1
  constructor
  · intro hpath
    rw [← hks.getLast_dropLast, hpath, hps.getLast_path]
  · intro hpid
    rw [h.linked.place k p hk (by rw [hpid]; exact hp), List.dropLast_concat]

theorem Whole.children_eq_rowsUnder (h : t.Whole) (hp : p ∈ t.chosen (Query.book b)) :
    (BookForest.Preordered.children p.path (t.chosen (Query.book b))).map Row.ofLink =
      t.rowsUnder p.nid := by
  have hs := h.sound
  obtain ⟨hps, hpb⟩ := (mem_chosen_book hs).1 hp
  have hpath : ∀ k ∈ BookForest.Preordered.children p.path (t.chosen (Query.book b)),
      k.path = p.path ++ [k.nid] := by
    intro k hk
    obtain ⟨hk, hup⟩ := List.mem_filter.1 hk
    rw [← of_decide_eq_true hup]
    exact (hs.of_stored? ((mem_chosen_book hs).1 hk).1).1.valid.path_eq
  apply eq_filter_of_mem
  · rw [List.pairwise_map]
    refine ((pairwise_chosen hs _).sublist List.filter_sublist).imp_of_mem ?_
    intro a c ha hc hlt
    rw [hpath a ha, hpath c hc] at hlt
    exact lt_of_concat_lt hlt
  · intro r
    rw [List.mem_map, hs.mem_rows_iff]
    constructor
    · rintro ⟨k, hk, rfl⟩
      obtain ⟨hk, hup⟩ := List.mem_filter.1 hk
      obtain ⟨hks, _⟩ := (mem_chosen_book hs).1 hk
      refine ⟨⟨k, hks, rfl⟩, ?_⟩
      rw [beq_iff_eq]
      exact congrArg Cell.int ((h.dropLast_path_eq_iff hks hps).1 (of_decide_eq_true hup))
    · rintro ⟨⟨k, hks, rfl⟩, hpid⟩
      have hkp : k.pid = p.nid := Cell.int.inj (beq_iff_eq.1 hpid)
      have hplace := h.linked.place k p hks (by rw [hkp]; exact hps)
      have hkb := (hs.of_stored? hks).1.bid_of_path (hs.of_stored? hps).1 hplace
      exact ⟨k, List.mem_filter.2 ⟨(mem_chosen_book hs).2 ⟨hks, hkb.trans hpb⟩,
        decide_eq_true ((h.dropLast_path_eq_iff hks hps).2 hkp)⟩, rfl⟩

/-- Of a book only its root lies at the top. -/
theorem Whole.path_of_children_nil (h : t.Whole)
    (hk : k ∈ BookForest.Preordered.children [] (t.chosen (Query.book b))) :
    k.path = [b] ∧ k.nid = b := by
  obtain ⟨hk, hup⟩ := List.mem_filter.1 hk
  obtain ⟨hstored, rfl⟩ := (mem_chosen_book h.sound).1 hk
  have hks := (h.sound.of_stored? hstored).1
  have hpath := hks.valid.path_eq
  rw [of_decide_eq_true hup, List.nil_append] at hpath
  have hbid := hks.head_path
  rw [hpath] at hbid
  have hnid : k.nid = k.bid := hbid
  exact ⟨hpath.trans (by rw [hnid]), hnid⟩

theorem Whole.build_book (h : t.Whole) (active : PageId → Bool) :
    BookForest.build active 1 (t.chosen (Query.book b)) =
      BookForest.ofRows active (t.chosen (Query.book b)) := by
  rw [BookForest.build, BookForest.rowsFrom_eq_self]
  intro l hl
  exact (h.sound.of_stored? ((mem_chosen_book h.sound).1 hl).1).1.depth_pos

/-- The forest of a book is the tree of its root, unless the book has no rows. -/
theorem Whole.ofRows_eq_cons (h : t.Whole) (active : PageId → Bool) (hne : t.rowsOf b ≠ []) :
    ∃ item below, BookForest.ofRows active (t.chosen (Query.book b)) = .cons item below .nil ∧
      item.link.nid = b := by
  have htops := (h.preordered_book b).tops_ofRows active
  have hsorted : (BookForest.Preordered.children [] (t.chosen (Query.book b))).Pairwise
      fun a c => a.path < c.path := (pairwise_chosen h.sound _).sublist List.filter_sublist
  have hroot := fun k => @Whole.path_of_children_nil t b k h
  cases hf : BookForest.ofRows active (t.chosen (Query.book b)) with
  | nil =>
    have hnone := BookForest.preorder_ofRows active (t.chosen (Query.book b))
    rw [hf] at hnone
    have hperm := perm_chosen_book (b := b) h.sound
    rw [List.map_eq_nil_iff.1 hnone.symm] at hperm
    exact absurd hperm.nil_eq.symm hne
  | cons item below rest =>
    rw [hf, Forest.tops, List.map_cons] at htops
    rw [← htops] at hsorted hroot
    obtain ⟨hpath, hnid⟩ := hroot item.link List.mem_cons_self
    cases rest with
    | nil => exact ⟨item, below, rfl, hnid⟩
    | cons item' below' rest' =>
      -- Two trees at the top would both have the path of the root.
      have hmem : item'.link ∈ item.link :: (Forest.tops (.cons item' below' rest')).map Item.link :=
        List.mem_cons_of_mem _ List.mem_cons_self
      have hlt := (List.pairwise_cons.1 hsorted).1 item'.link List.mem_cons_self
      rw [hpath, (hroot item'.link hmem).1] at hlt
      exact absurd hlt (List.lt_irrefl _)

/-- In a consistent table, the forest of a book without rows is empty. That of any other book is the
tree of the book's root; below each page lie the pages that name it as their parent, in ascending
order of ids; and the pages of the forest are those of the book, each of them once. -/
theorem forest_of_book (h : t.Consistent) (b : PageId) :
    ∃ links f, t.select (Query.book b) = .ok links ∧
      f = BookForest.build (fun _ => false) 1 links ∧
      (t.rowsOf b = [] → f = .nil) ∧
      (t.rowsOf b ≠ [] → ∃ item below, f = .cons item below .nil ∧ item.link.nid = b) ∧
      (∀ tree ∈ f.subtrees,
        tree.2.tops.map (fun item => Row.ofLink item.link) = t.rowsUnder tree.1.link.nid) ∧
      (f.preorder.map fun item => Row.ofLink item.link).Perm (t.rowsOf b) := by
  have hw := h.whole
  refine ⟨t.chosen (Query.book b), BookForest.ofRows (fun _ => false) (t.chosen (Query.book b)),
    select_eq hw.sound _, (hw.build_book _).symm, ?_, hw.ofRows_eq_cons _, ?_, ?_⟩
  · intro hnone
    have hperm := perm_chosen_book (b := b) hw.sound
    rw [hnone] at hperm
    rw [List.map_eq_nil_iff.1 hperm.eq_nil]
    rfl
  · intro tree htree
    have hmem := BookForest.mem_of_mem_subtrees htree
    rw [← hw.children_eq_rowsUnder hmem, ← (hw.preordered_book b).tops_subtrees tree htree,
      List.map_map]
    rfl
  · rw [BookForest.preorder_ofRows, List.map_map]
    exact perm_chosen_book hw.sound

/-- A book whose pages have ids that do not follow their places, and another book. -/
def twoBooks : Table :=
  [.ofLink (.along [5] true 0), .ofLink (.along [5, 9] true 3), .ofLink (.along [5, 9, 1] false 0),
    .ofLink (.along [5, 7] false 0), .ofLink (.along [2] true 0),
    .ofLink (.along [2, 6] false (-1))].foldl put .empty

/-- The forest of the first book is the tree of its root, with the second and the fourth page below
it. -/
theorem forest_of_book_twoBooks :
    (twoBooks.Consistent ∧ twoBooks.rowsOf 5 ≠ [] ∧
      (twoBooks.rowsUnder 5).map Row.nid = [7, 9]) ∧
    ∃ links item below, twoBooks.select (Query.book 5) = .ok links ∧
      BookForest.build (fun _ => false) 1 links = .cons item below .nil ∧ item.link.nid = 5 ∧
      below.tops.map (fun item => Row.ofLink item.link) = twoBooks.rowsUnder 5 := by
  have hconsistent : twoBooks.Consistent := by decide +kernel
  have hne : twoBooks.rowsOf 5 ≠ [] := by decide
  obtain ⟨links, f, hselect, rfl, _, hroot, hbelow, _⟩ := forest_of_book hconsistent 5
  obtain ⟨item, below, hf, hnid⟩ := hroot hne
  refine ⟨⟨hconsistent, hne, by decide⟩, links, item, below, hselect, hf, hnid, ?_⟩
  have htops := hbelow (item, below) (by rw [hf]; exact List.mem_cons_self)
  rw [hnid] at htops
  exact htops

end Table

end Outline
