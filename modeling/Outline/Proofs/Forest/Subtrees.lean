import Mathlib.Data.List.Nodup
import Mathlib.Data.List.TakeWhile
import Outline.Proofs.Forest.Visible

/-!
The tree of one page within a forest.

Of different pages there is at most one tree each, and it does not matter whether the tree of a page
is cut out of a forest first or last: not for making forests from rows, nor for filling in titles as
long as the pages on the way have some, nor for sorting.
-/
namespace Outline.BookForest
set_option autoImplicit false

variable {f : BookForest} {nid : PageId} {tree : Item × BookForest} {up : List PageId}
  {rows : List Link} {l x : Link} {active : PageId → Bool} {title? : PageId → Option String}

/-- The trees of a page, wherever they are in a forest. -/
def treesAt (nid : PageId) (f : BookForest) : BookForest :=
  Forest.ofTrees (f.subtrees.filter (·.1.link.nid == nid))

theorem map_nid_subtrees (f : BookForest) :
    f.subtrees.map (·.1.link.nid) = f.links.map Link.nid := by
  rw [links, ← Forest.map_fst_subtrees, List.map_map, List.map_map]
  rfl

theorem mem_nids_of_mem_subtrees (h : tree ∈ f.subtrees) :
    tree.1.link.nid ∈ f.links.map Link.nid := by
  rw [← map_nid_subtrees]
  exact List.mem_map_of_mem h

/-- In a forest of different pages a tree is known by its page. -/
theorem eq_of_nid_eq {other : Item × BookForest} (hf : (f.links.map Link.nid).Nodup)
    (h : tree ∈ f.subtrees) (hother : other ∈ f.subtrees)
    (heq : other.1.link.nid = tree.1.link.nid) : other = tree := by
  rw [← map_nid_subtrees] at hf
  exact List.inj_on_of_nodup_map hf hother h heq

theorem treesAt_of_mem (hf : (f.links.map Link.nid).Nodup) (h : tree ∈ f.subtrees) :
    f.treesAt tree.1.link.nid = .cons tree.1 tree.2 .nil := by
  have hone : f.subtrees.filter (·.1.link.nid == tree.1.link.nid) = [tree] := by
    have hdistinct : f.subtrees.Nodup := by
      rw [← map_nid_subtrees] at hf
      exact List.Nodup.of_map _ hf
    rw [← List.perm_singleton, List.perm_ext_iff_of_nodup (hdistinct.filter _)
      (List.nodup_singleton _)]
    intro other
    rw [List.mem_filter, beq_iff_eq, List.mem_singleton]
    constructor
    · rintro ⟨hother, heq⟩
      exact eq_of_nid_eq hf h hother heq
    · rintro rfl
      exact ⟨h, rfl⟩
  rw [treesAt, hone]
  rfl

theorem treesAt_of_not_mem (h : nid ∉ f.links.map Link.nid) : f.treesAt nid = .nil := by
  have hnone : f.subtrees.filter (·.1.link.nid == nid) = [] := by
    rw [List.filter_eq_nil_iff]
    intro tree htree heq
    exact h (beq_iff_eq.1 heq ▸ mem_nids_of_mem_subtrees htree)
  rw [treesAt, hnone]
  rfl

theorem exists_tree_of_mem (h : nid ∈ f.links.map Link.nid) :
    ∃ tree ∈ f.subtrees, tree.1.link.nid = nid := by
  rw [← map_nid_subtrees] at h
  exact List.mem_map.1 h

theorem treesAt_cases (hf : (f.links.map Link.nid).Nodup) (nid : PageId) :
    (∃ tree ∈ f.subtrees, tree.1.link.nid = nid ∧ f.treesAt nid = .cons tree.1 tree.2 .nil) ∨
      nid ∉ f.links.map Link.nid ∧ f.treesAt nid = .nil := by
  by_cases hmem : nid ∈ f.links.map Link.nid
  · obtain ⟨tree, htree, rfl⟩ := exists_tree_of_mem hmem
    exact .inl ⟨tree, htree, rfl, treesAt_of_mem hf htree⟩
  · exact .inr ⟨hmem, treesAt_of_not_mem hmem⟩

theorem sort_nil : sort .nil = .nil := by
  simp [sort, sortBelow, sortTrees, Forest.trees, Forest.ofTrees]

theorem sort_one (item : Item) (below : BookForest) :
    sort (.cons item below .nil) = .cons item below.sort .nil := by
  rw [sort, sortBelow, sortBelow, Forest.trees, Forest.trees, sortTrees, List.mergeSort_singleton]
  rfl

theorem treesAt_sort (hf : (f.links.map Link.nid).Nodup) (nid : PageId) :
    f.sort.treesAt nid = (f.treesAt nid).sort := by
  have hids := (links_sort f).map Link.nid
  rcases treesAt_cases hf nid with ⟨tree, htree, rfl, heq⟩ | ⟨hmem, heq⟩
  · have hsorted : (tree.1, sort tree.2) ∈ f.sort.subtrees :=
      (subtrees_sort f).mem_iff.2 (List.mem_map_of_mem htree)
    rw [heq, sort_one]
    exact treesAt_of_mem (hids.nodup_iff.2 hf) hsorted
  · rw [heq, treesAt_of_not_mem (mt hids.mem_iff.1 hmem)]
    exact sort_nil.symm

/-- Filling in titles keeps the tree of a page, with what is left below it, unless a page on the way
has no title. -/
theorem treesAt_withTitles (hf : (f.links.map Link.nid).Nodup)
    (hleft : nid ∈ f.links.map Link.nid → (title? nid).isSome = true →
      nid ∈ (f.withTitles title?).links.map Link.nid) :
    (f.withTitles title?).treesAt nid = (f.treesAt nid).withTitles title? := by
  have hsub := (links_withTitles title? f).map Link.nid
  rcases treesAt_cases hf nid with ⟨tree, htree, rfl, heq⟩ | ⟨hmem, heq⟩
  · rw [heq, withTitles]
    cases htitle : title? tree.1.link.nid with
    | none =>
      refine treesAt_of_not_mem fun hmem => ?_
      obtain ⟨shown, hshown, hnid⟩ := exists_tree_of_mem hmem
      obtain ⟨source, _, title, hsome, rfl⟩ := mem_subtrees_withTitles hshown
      rw [show source.1.link.nid = _ from hnid, htitle] at hsome
      cases hsome
    | some title =>
      have hmem := hleft (mem_nids_of_mem_subtrees htree) (by rw [htitle]; rfl)
      obtain ⟨shown, hshown, hnid⟩ := exists_tree_of_mem hmem
      obtain ⟨source, hsource, title', hsome, rfl⟩ := mem_subtrees_withTitles hshown
      obtain rfl := eq_of_nid_eq hf htree hsource hnid
      rw [htitle] at hsome
      cases hsome
      exact treesAt_of_mem (hf.sublist hsub) hshown
  · rw [heq, treesAt_of_not_mem (fun h => hmem (hsub.subset h))]
    rfl

namespace Preordered

/-- The rows below a path, not only directly. -/
def allBelow (up : List PageId) (rows : List Link) : List Link :=
  rows.filter fun l => decide (up <+: l.path.dropLast)

theorem allBelow_cons (up : List PageId) (l : Link) (rows : List Link) :
    allBelow up (l :: rows) = allBelow up [l] ++
      (allBelow up (nested l rows) ++ allBelow up (later l rows)) := by
  simp only [allBelow, ← List.filter_append, nested_append_later, List.singleton_append]

theorem allBelow_eq_nil {up' : List PageId} (h : ∀ l ∈ rows, ¬ up' <+: l.path.dropLast) :
    allBelow up' rows = [] := by
  rw [allBelow, List.filter_eq_nil_iff]
  intro l hl
  simpa using h l hl

theorem allBelow_head_eq_nil (h : Preordered up (l :: rows)) {up' : List PageId}
    (hlong : up.length < up'.length) : allBelow up' [l] = [] := by
  apply allBelow_eq_nil
  intro k hk hpre
  rw [List.mem_singleton.1 hk, h.dropLast_head] at hpre
  exact absurd hpre.length_le (Nat.not_le.2 hlong)

theorem allBelow_later_eq_nil (h : Preordered up (l :: rows)) {up' : List PageId}
    (hpre : l.path <+: up') : allBelow up' (later l rows) = [] := by
  apply allBelow_eq_nil
  intro k hk hkup
  exact h.not_prefix_of_later hk (hpre.trans (hkup.trans (List.dropLast_prefix _)))

theorem allBelow_head (h : Preordered up (l :: rows)) : allBelow l.path (l :: rows) = nested l rows := by
  have hnested : allBelow l.path (nested l rows) = nested l rows := by
    rw [allBelow, List.filter_eq_self]
    intro k hk
    exact decide_eq_true (h.prefix_of_nested hk)
  have hlen := h.length_head
  rw [allBelow_cons, h.allBelow_head_eq_nil (by omega), h.allBelow_later_eq_nil List.prefix_rfl,
    hnested, List.nil_append, List.append_nil]

/-- Below each item lie the rows below its path. -/
theorem subtrees_ofRows (h : Preordered up rows) :
    ∀ tree ∈ (ofRows active rows).subtrees,
      tree.2 = ofRows active (allBelow tree.1.link.path rows) := by
  induction rows using rows_induction generalizing up with
  | nil => exact fun tree htree => nomatch htree
  | cons l rows ihnested ihlater =>
    intro tree htree
    rw [ofRows_cons, Forest.subtrees, List.mem_cons, List.mem_append] at htree
    have hlen := h.length_head
    rcases htree with rfl | htree | htree
    · rw [h.allBelow_head]
    · have hpre := (h.prefix_of_nested (mem_of_mem_subtrees htree)).trans (List.dropLast_prefix _)
      have hlong := hpre.length_le
      rw [ihnested h.of_nested tree htree, allBelow_cons, h.allBelow_head_eq_nil (by omega),
        h.allBelow_later_eq_nil hpre, List.nil_append, List.append_nil]
    · have hmem := mem_of_mem_subtrees htree
      have hlong := h.of_later.length_lt hmem
      -- A later path that led to a row nested below the first one would start with its path.
      have hnested : allBelow tree.1.link.path (nested l rows) = [] := by
        apply allBelow_eq_nil
        intro k hk hpre
        exact h.not_prefix_of_later hmem
          (List.prefix_of_prefix_length_le (h.prefix_of_nested hk) hpre (by omega))
      rw [ihlater h.of_later tree htree, allBelow_cons, h.allBelow_head_eq_nil hlong, hnested,
        List.nil_append, List.nil_append]

theorem allBelow_of_mem (h : Preordered up rows) (hl : l ∈ rows)
    (hx : x ∈ allBelow l.path rows) : l.depth < x.depth := by
  obtain ⟨hx, hpre⟩ := List.mem_filter.1 hx
  have hlt := length_lt_of_prefix_dropLast (h.below x hx).1 (of_decide_eq_true hpre)
  rwa [h.depth l hl, h.depth x hx] at hlt

/-- A row with the rows below its path makes one tree. -/
theorem ofRows_allBelow (h : Preordered up rows) (hl : l ∈ rows) (active : PageId → Bool) :
    ofRows active (l :: allBelow l.path rows) =
      .cons ⟨l, none, active l.nid⟩ (ofRows active (allBelow l.path rows)) .nil := by
  have hdeeper : ∀ x ∈ allBelow l.path rows, decide (l.depth < x.depth) = true :=
    fun x hx => decide_eq_true (h.allBelow_of_mem hl hx)
  rw [ofRows_cons, nested, later, List.takeWhile_eq_self_iff.2 hdeeper,
    List.dropWhile_eq_nil_iff.2 hdeeper]
  rfl

theorem treesAt_ofRows (h : Preordered up rows) (hrows : (rows.map Link.nid).Nodup)
    (hl : l ∈ rows) (active : PageId → Bool) :
    (ofRows active rows).treesAt l.nid =
      .cons ⟨l, none, active l.nid⟩ (ofRows active (allBelow l.path rows)) .nil := by
  have hitem : ⟨l, none, active l.nid⟩ ∈ (ofRows active rows).preorder := by
    rw [preorder_ofRows]
    exact List.mem_map_of_mem hl
  obtain ⟨below, htree⟩ := Forest.exists_mem_subtrees hitem
  rw [← links_ofRows active rows] at hrows
  have hone := treesAt_of_mem hrows htree
  rw [h.subtrees_ofRows _ htree] at hone
  exact hone

end Preordered

end Outline.BookForest
