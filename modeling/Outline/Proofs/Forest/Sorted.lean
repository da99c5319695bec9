import Outline.Forest.Sorted
import Outline.Proofs.Forest.Preorder

/-!
Forests whose siblings are in order.

Sorting moves trees about among their siblings, and nothing else: the items of the forest and what
lies below each of them stay the same. Siblings have different ids, so their keys are different
too, and the order that sorting leaves is strict.
-/
namespace Outline
set_option autoImplicit false

namespace SiblingKey

/-- Whether a key comes before another one: by its weight, then by its title, then by its id. -/
def Before (a b : SiblingKey) : Prop :=
  a.weight < b.weight ∨
    a.weight = b.weight ∧ (a.title < b.title ∨ a.title = b.title ∧ a.nid < b.nid)

instance (a b : SiblingKey) : Decidable (a.Before b) := inferInstanceAs (Decidable (_ ∨ _))

variable {a b c : SiblingKey}

theorem le_iff : a.le b = true ↔ a.Before b ∨ a = b := by
  obtain ⟨weight, title, nid⟩ := a
  obtain ⟨weight', title', nid'⟩ := b
  simp only [le, Before, Bool.or_eq_true, Bool.and_eq_true, decide_eq_true_iff, beq_iff_eq,
    mk.injEq, Int64.le_iff_lt_or_eq]
  tauto

theorem Before.trans (hab : a.Before b) (hbc : b.Before c) : a.Before c := by
  unfold Before at *
  grind

theorem before_or_eq_or_before (a b : SiblingKey) : a.Before b ∨ a = b ∨ b.Before a := by
  obtain ⟨weight, title, nid⟩ := a
  obtain ⟨weight', title', nid'⟩ := b
  simp only [Before, mk.injEq]
  grind

theorem le_trans (hab : a.le b = true) (hbc : b.le c = true) : a.le c = true := by
  rw [le_iff] at *
  rcases hab with hab | rfl
  · rcases hbc with hbc | rfl
    · exact .inl (hab.trans hbc)
    · exact .inl hab
  · exact hbc

theorem le_total (a b : SiblingKey) : a.le b = true ∨ b.le a = true := by
  rw [le_iff, le_iff]
  rcases before_or_eq_or_before a b with hab | rfl | hba
  · exact .inl (.inl hab)
  · exact .inl (.inr rfl)
  · exact .inr (.inl hba)

/-- Sorting what has different ids by its keys puts each before all that follow. -/
theorem pairwise_mergeSort {α : Type} (key : α → SiblingKey) {xs : List α}
    (h : (xs.map fun x => (key x).nid).Nodup) :
    (xs.mergeSort fun x y => (key x).le (key y)).Pairwise fun x y => (key x).Before (key y) := by
  have hle : (xs.mergeSort fun x y => (key x).le (key y)).Pairwise fun x y =>
      (key x).le (key y) = true := by
    apply List.pairwise_mergeSort
    · exact fun _ _ _ => le_trans
    · intro x y
      rw [Bool.or_eq_true]
      exact le_total (key x) (key y)
  have hne : (xs.mergeSort fun x y => (key x).le (key y)).Pairwise fun x y =>
      (key x).nid ≠ (key y).nid :=
    List.pairwise_map.1 (((List.mergeSort_perm _ _).map _).nodup_iff.2 h)
  refine (hle.and hne).imp ?_
  rintro x y ⟨hxy, hid⟩
  rcases le_iff.1 hxy with hbefore | heq
  · exact hbefore
  · exact absurd (congrArg SiblingKey.nid heq) hid

end SiblingKey

namespace Forest

variable {α : Type} {f : Forest α} {tree : α × Forest α}

theorem tops_eq_map (f : Forest α) : f.tops = f.trees.map (·.1) := by
  induction f with
  | nil => rfl
  | cons item below rest _ ih => rw [tops, trees, List.map_cons, ih]

theorem subtrees_eq_flatMap (f : Forest α) :
    f.subtrees = f.trees.flatMap fun tree => tree :: tree.2.subtrees := by
  induction f with
  | nil => rfl
  | cons item below rest _ ih =>
    rw [subtrees, trees, List.flatMap_cons, ← ih, List.cons_append]

theorem tops_sublist (f : Forest α) : f.tops.Sublist f.preorder := by
  induction f with
  | nil => exact .slnil
  | cons item below rest _ ih =>
    exact .cons_cons _ (ih.trans (List.sublist_append_right _ _))

theorem preorder_sublist_of_mem_subtrees (h : tree ∈ f.subtrees) :
    tree.2.preorder.Sublist f.preorder := by
  induction f with
  | nil => cases h
  | cons item below rest ihbelow ihrest =>
    rw [subtrees, List.mem_cons, List.mem_append] at h
    refine .cons _ ?_
    rcases h with rfl | h | h
    · exact List.sublist_append_left _ _
    · exact (ihbelow h).trans (List.sublist_append_left _ _)
    · exact (ihrest h).trans (List.sublist_append_right _ _)

end Forest

namespace BookForest

variable {f : BookForest}

/-- Whether every list of siblings is in the order of keys. -/
structure InOrder (f : BookForest) : Prop where
  tops : f.tops.Pairwise fun a b => a.key.Before b.key
  below : ∀ tree ∈ f.subtrees, tree.2.tops.Pairwise fun a b => a.key.Before b.key

theorem subtrees_sortTrees (f : BookForest) :
    (Forest.ofTrees (sortTrees f.trees)).subtrees.Perm f.subtrees := by
  rw [Forest.subtrees_eq_flatMap, Forest.trees_ofTrees, Forest.subtrees_eq_flatMap]
  exact (List.mergeSort_perm _ _).flatMap_right _

theorem subtrees_sortBelow (f : BookForest) :
    (sortBelow f).subtrees.Perm (f.subtrees.map fun tree => (tree.1, sort tree.2)) := by
  induction f with
  | nil => exact .nil
  | cons item below rest ihbelow ihrest =>
    rw [Forest.subtrees, List.map_cons, List.map_append]
    exact .cons _ (((subtrees_sortTrees _).trans ihbelow).append ihrest)

/-- Each tree of a sorted forest is one of the forest, with what lies below it sorted. -/
theorem subtrees_sort (f : BookForest) :
    f.sort.subtrees.Perm (f.subtrees.map fun tree => (tree.1, sort tree.2)) :=
  (subtrees_sortTrees _).trans (subtrees_sortBelow f)

theorem preorder_sort (f : BookForest) : f.sort.preorder.Perm f.preorder := by
  have hperm := (subtrees_sort f).map (·.1)
  rw [List.map_map, Forest.map_fst_subtrees] at hperm
  rw [← Forest.map_fst_subtrees f]
  exact hperm

theorem links_sort (f : BookForest) : f.sort.links.Perm f.links := (preorder_sort f).map _

theorem tops_sortBelow (f : BookForest) : (sortBelow f).tops = f.tops := by
  induction f with
  | nil => rfl
  | cons item below rest _ ih => rw [sortBelow, Forest.tops, Forest.tops, ih]

theorem tops_sort (f : BookForest) : f.sort.tops.Perm f.tops := by
  rw [sort, Forest.tops_eq_map, Forest.trees_ofTrees, ← tops_sortBelow f, Forest.tops_eq_map]
  exact (List.mergeSort_perm _ _).map _

theorem nodup_ids_sortBelow (h : (f.tops.map (·.link.nid)).Nodup) :
    ((sortBelow f).trees.map fun tree => tree.1.key.nid).Nodup := by
  rw [← tops_sortBelow, Forest.tops_eq_map, List.map_map] at h
  exact h

theorem pairwise_tops_sort (h : (f.tops.map (·.link.nid)).Nodup) :
    f.sort.tops.Pairwise fun a b => a.key.Before b.key := by
  rw [sort, Forest.tops_eq_map, Forest.trees_ofTrees, List.pairwise_map]
  exact SiblingKey.pairwise_mergeSort (fun tree : Item × BookForest => tree.1.key)
    (nodup_ids_sortBelow h)

/-- Whether siblings have different ids, wherever they are. -/
structure SiblingsDiffer (f : BookForest) : Prop where
  tops : (f.tops.map (·.link.nid)).Nodup
  below : ∀ tree ∈ f.subtrees, (tree.2.tops.map (·.link.nid)).Nodup

theorem siblingsDiffer_of_nodup (h : (f.preorder.map (·.link.nid)).Nodup) : f.SiblingsDiffer where
  tops := h.sublist (f.tops_sublist.map _)
  below tree htree := h.sublist
    ((tree.2.tops_sublist.trans (Forest.preorder_sublist_of_mem_subtrees htree)).map _)

/-- In a sorted forest whose siblings have different ids they are in order. -/
theorem inOrder_sort (h : f.SiblingsDiffer) : f.sort.InOrder := by
  refine ⟨pairwise_tops_sort h.tops, fun tree htree => ?_⟩
  obtain ⟨source, hsource, rfl⟩ := List.mem_map.1 ((subtrees_sort f).mem_iff.1 htree)
  exact pairwise_tops_sort (h.below source hsource)

theorem sortTrees_of_pairwise (h : f.tops.Pairwise fun a b => a.key.Before b.key) :
    sortTrees f.trees = f.trees := by
  rw [Forest.tops_eq_map, List.pairwise_map] at h
  exact List.mergeSort_of_pairwise (h.imp fun hbefore => SiblingKey.le_iff.2 (.inl hbefore))

theorem sortBelow_of_pairwise
    (h : ∀ tree ∈ f.subtrees, tree.2.tops.Pairwise fun a b => a.key.Before b.key) :
    sortBelow f = f := by
  induction f with
  | nil => rfl
  | cons item below rest ihbelow ihrest =>
    simp only [Forest.subtrees, List.forall_mem_cons, List.forall_mem_append] at h
    obtain ⟨htops, hbelow, hrest⟩ := h
    rw [sortBelow, ihbelow hbelow, ihrest hrest, sortTrees_of_pairwise htops, Forest.ofTrees_trees]

/-- A forest that is in order stays as it is. -/
theorem sort_of_inOrder (h : f.InOrder) : f.sort = f := by
  rw [sort, sortBelow_of_pairwise h.below, sortTrees_of_pairwise h.tops, Forest.ofTrees_trees]

end BookForest

end Outline
