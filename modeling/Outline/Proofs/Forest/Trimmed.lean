import Outline.Proofs.Forest.Loops
import Outline.Proofs.Forest.Subtrees

/-!
Forests that some pages are left out of.

With a page all that is below it is left out, so what is left stays in its place. It makes no
difference whether pages are left out of the rows, of the forest made from them or of what a viewer
is told of it, as long as no page stays whose row is below one that goes.
-/
namespace Outline
set_option autoImplicit false

namespace SiblingKey

theorem Before.asymm {a b : SiblingKey} (h : a.Before b) : ¬ b.Before a := by
  unfold Before at *
  grind

/-- There is one order only that the keys of what has different ids put it into. -/
theorem mergeSort_eq_of_perm {α : Type} (key : α → SiblingKey) {xs ys : List α}
    (hids : (xs.map fun x => (key x).nid).Nodup) (hperm : xs.Perm ys)
    (hys : ys.Pairwise fun x y => (key x).Before (key y)) :
    (xs.mergeSort fun x y => (key x).le (key y)) = ys := by
  refine List.Perm.eq_of_pairwise (fun x y _ _ hxy hyx => ?_) (pairwise_mergeSort key hids) hys
    ((List.mergeSort_perm _ _).trans hperm)
  exact absurd hyx hxy.asymm

end SiblingKey

namespace BookForest

variable {keep : Link → Bool} {active active' : PageId → Bool} {title? : PageId → Option String}
  {f : BookForest} {item : Item} {up : List PageId} {rows : List Link} {l : Link}
  {ts : List (Item × BookForest)}

/-- The forest without the pages that are not kept and all below them, with marks of its own. -/
def trimmed (keep : Link → Bool) (active : PageId → Bool) : BookForest → BookForest
  | .nil => .nil
  | .cons item below rest =>
    if keep item.link then
      .cons { item with active := active item.link.nid } (trimmed keep active below)
        (trimmed keep active rest)
    else trimmed keep active rest

/-- What is left of one tree, if its page is kept. -/
def trimmedTree? (keep : Link → Bool) (active : PageId → Bool) (tree : Item × BookForest) :
    Option (Item × BookForest) :=
  if keep tree.1.link then
    some ({ tree.1 with active := active tree.1.link.nid }, trimmed keep active tree.2)
  else none

theorem trees_trimmed (f : BookForest) :
    (f.trimmed keep active).trees = f.trees.filterMap (trimmedTree? keep active) := by
  induction f with
  | nil => rfl
  | cons item below rest _ ih =>
    rw [trimmed, Forest.trees, List.filterMap_cons, trimmedTree?]
    split
    · rw [Forest.trees, ih]
    · exact ih

theorem trimmed_ofTrees (ts : List (Item × BookForest)) :
    trimmed keep active (.ofTrees ts) = .ofTrees (ts.filterMap (trimmedTree? keep active)) := by
  rw [← Forest.ofTrees_trees (trimmed keep active _), trees_trimmed, Forest.trees_ofTrees]

/-- All pages are marked anew. -/
theorem active_of_mem_trimmed (h : item ∈ (f.trimmed keep active).preorder) :
    item.active = active item.link.nid := by
  induction f with
  | nil => cases h
  | cons top below rest ihbelow ihrest =>
    rw [trimmed] at h
    split at h
    · rw [Forest.preorder, List.mem_cons, List.mem_append] at h
      rcases h with rfl | h | h
      · rfl
      · exact ihbelow h
      · exact ihrest h
    · exact ihrest h

/-- Just the pages that are kept are left, when none of them is below one that is not. -/
theorem links_trimmed
    (h : ∀ tree ∈ f.subtrees, ∀ x ∈ links tree.2, keep x = true → keep tree.1.link = true) :
    (f.trimmed keep active).links = f.links.filter keep := by
  induction f with
  | nil => rfl
  | cons item below rest ihbelow ihrest =>
    simp only [Forest.subtrees, List.forall_mem_cons, List.forall_mem_append] at h
    obtain ⟨hitem, hbelow, hrest⟩ := h
    rw [trimmed, links_cons, List.filter_cons, List.filter_append, ← ihrest hrest]
    split
    · rw [links_cons, ihbelow hbelow]
    · next hgone =>
      have hnone : (links below).filter keep = [] := by
        rw [List.filter_eq_nil_iff]
        exact fun x hx hkept => hgone (hitem x hx hkept)
      rw [hnone, List.nil_append]

theorem withTitles_trimmed (f : BookForest) :
    (f.trimmed keep active).withTitles title? = (f.withTitles title?).trimmed keep active := by
  induction f with
  | nil => rfl
  | cons item below rest ihbelow ihrest =>
    rw [trimmed, withTitles]
    cases htitle : title? item.link.nid with
    | none =>
      split
      · simp only [withTitles, htitle, ihrest]
      · exact ihrest
    | some title =>
      simp only [trimmed]
      split
      · simp only [withTitles, htitle, ihbelow, ihrest]
      · exact ihrest

section Sorted

theorem key_of_mem_trimmedTree? {tree left : Item × BookForest}
    (h : left ∈ trimmedTree? keep active tree) : left.1.key = tree.1.key := by
  rw [trimmedTree?] at h
  split at h
  · cases h
    rfl
  · cases h

theorem sortTrees_filterMap (hids : (ts.map (·.1.link.nid)).Nodup) :
    sortTrees (ts.filterMap (trimmedTree? keep active)) =
      (sortTrees ts).filterMap (trimmedTree? keep active) := by
  have hleft : ((ts.filterMap (trimmedTree? keep active)).map (·.1.link.nid)).Nodup := by
    refine List.pairwise_map.2 ((List.pairwise_map.1 hids).filterMap _ ?_)
    intro a b hne a' ha b' hb heq
    have hkeys := congrArg SiblingKey.nid (key_of_mem_trimmedTree? ha)
    have hkeys' := congrArg SiblingKey.nid (key_of_mem_trimmedTree? hb)
    exact hne (hkeys.symm.trans (heq.trans hkeys'))
  refine SiblingKey.mergeSort_eq_of_perm (fun tree : Item × BookForest => tree.1.key) hleft
    ((List.mergeSort_perm _ _).symm.filterMap _) ?_
  refine (SiblingKey.pairwise_mergeSort (fun tree : Item × BookForest => tree.1.key) hids).filterMap
    _ ?_
  intro a b hbefore a' ha b' hb
  rw [key_of_mem_trimmedTree? ha, key_of_mem_trimmedTree? hb]
  exact hbefore

theorem sortTrees_trimmed (hids : (f.tops.map (·.link.nid)).Nodup) :
    Forest.ofTrees (sortTrees (f.trimmed keep active).trees) =
      trimmed keep active (.ofTrees (sortTrees f.trees)) := by
  rw [Forest.tops_eq_map, List.map_map] at hids
  rw [trees_trimmed, sortTrees_filterMap hids, trimmed_ofTrees]

theorem nodup_tops_sortBelow (h : (f.links.map Link.nid).Nodup) :
    ((sortBelow f).tops.map (·.link.nid)).Nodup := by
  rw [links, List.map_map] at h
  rw [tops_sortBelow]
  exact h.sublist (f.tops_sublist.map _)

theorem sortBelow_trimmed (h : (f.links.map Link.nid).Nodup) :
    sortBelow (f.trimmed keep active) = (sortBelow f).trimmed keep active := by
  induction f with
  | nil => rfl
  | cons item below rest ihbelow ihrest =>
    rw [links_cons, List.map_cons, List.map_append, List.nodup_cons, List.nodup_append] at h
    obtain ⟨_, hbelow, hrest, _⟩ := h
    rw [trimmed, sortBelow, trimmed]
    split
    · rw [sortBelow, ihbelow hbelow, ihrest hrest, sortTrees_trimmed (nodup_tops_sortBelow hbelow)]
    · exact ihrest hrest

theorem sort_trimmed (h : (f.links.map Link.nid).Nodup) :
    (f.trimmed keep active).sort = f.sort.trimmed keep active := by
  rw [sort, sortBelow_trimmed h, sortTrees_trimmed (nodup_tops_sortBelow h), sort]

end Sorted

section Rows

/-- Whether the rows on the way to each row that is kept are kept as well. -/
def KeepsAbove (keep : Link → Bool) (rows : List Link) : Prop :=
  ∀ p ∈ rows, ∀ x ∈ rows, p.path <+: x.path → keep x = true → keep p = true

theorem KeepsAbove.mono {fewer : List Link} (h : KeepsAbove keep rows) (hsub : fewer ⊆ rows) :
    KeepsAbove keep fewer :=
  fun p hp x hx => h p (hsub hp) x (hsub hx)

namespace Preordered

theorem filter (h : Preordered up rows) (hkeep : KeepsAbove keep rows) :
    Preordered up (rows.filter keep) := by
  have hsub : ∀ l ∈ rows.filter keep, l ∈ rows := fun l hl => List.mem_of_mem_filter hl
  refine ⟨h.sorted.sublist List.filter_sublist, fun l hl => h.below l (hsub l hl), ?_,
    fun l hl => h.depth l (hsub l hl)⟩
  intro l hl
  obtain ⟨hrow, hkept⟩ := List.mem_filter.1 hl
  rcases h.closed l hrow with htop | ⟨p, hp, hpath⟩
  · exact .inl htop
  · have hpre : p.path <+: l.path := by
      rw [hpath]
      exact List.dropLast_prefix _
    exact .inr ⟨p, List.mem_filter.2 ⟨hp, hkeep p hp l hrow hpre hkept⟩, hpath⟩

/-- Rows are left out before a forest is made of them, or pages of the forest. -/
theorem ofRows_filter (h : Preordered up rows) (hkeep : KeepsAbove keep rows) :
    ofRows active (rows.filter keep) = (ofRows active' rows).trimmed keep active := by
  induction rows using rows_induction generalizing up with
  | nil => rfl
  | cons l rows ihnested ihlater =>
    have hnestedsub : nested l rows ⊆ l :: rows :=
      List.subset_cons_of_subset l (nested_sublist l rows).subset
    have hlatersub : later l rows ⊆ l :: rows :=
      List.subset_cons_of_subset l (later_sublist l rows).subset
    have hnested := ihnested h.of_nested (hkeep.mono hnestedsub)
    have hlater := ihlater h.of_later (hkeep.mono hlatersub)
    have hrows : rows.filter keep = (nested l rows).filter keep ++ (later l rows).filter keep := by
      rw [← List.filter_append, nested_append_later]
    rw [ofRows_cons, trimmed, ← hnested, ← hlater, List.filter_cons, hrows]
    split
    · next hkept =>
      apply ofRows_cons_append
      · exact fun k hk => depth_lt_of_nested (List.mem_of_mem_filter hk)
      · -- What is left of the later rows starts at the top again.
        intro k hk
        obtain ⟨after, hafter⟩ := List.head?_eq_some_iff.1 hk
        have hleft := h.of_later.filter (hkeep.mono hlatersub)
        have hmem : k ∈ l :: rows := hlatersub (List.mem_of_mem_filter (by rw [hafter]; simp))
        rw [hafter] at hleft
        rw [← h.depth k hmem, ← h.depth l List.mem_cons_self, hleft.length_head, h.length_head]
    · next hgone =>
      have hnone : (nested l rows).filter keep = [] := by
        rw [List.filter_eq_nil_iff]
        intro x hx hkept
        have hpre := (h.prefix_of_nested hx).trans (List.dropLast_prefix _)
        exact hgone (hkeep l List.mem_cons_self x (hnestedsub hx) hpre hkept)
      rw [hnone, List.nil_append]

/-- What is shown of the rows that are kept is what is kept of all that is shown. -/
theorem shown_filter (h : Preordered up rows) (hkeep : KeepsAbove keep rows)
    (hids : (rows.map Link.nid).Nodup) :
    ((ofRows active (rows.filter keep)).withTitles title?).sort =
      ((ofRows active' rows).withTitles title?).sort.trimmed keep active := by
  rw [h.ofRows_filter hkeep, withTitles_trimmed, sort_trimmed]
  refine hids.sublist ?_
  have hsub := (links_withTitles title? (ofRows active' rows)).map Link.nid
  rwa [links_ofRows] at hsub

theorem links_shown_trimmed (h : Preordered up rows) (hkeep : KeepsAbove keep rows) :
    (((ofRows active' rows).withTitles title?).sort.trimmed keep active).links =
      ((ofRows active' rows).withTitles title?).sort.links.filter keep := by
  apply links_trimmed
  intro tree htree x hx
  obtain ⟨source, hsource, hlink, hbelow⟩ := mem_subtrees_shown htree
  rw [hbelow] at hx
  have hrow := links_shown title? source.2 hx
  rw [h.subtrees_ofRows source hsource, links_ofRows] at hrow
  obtain ⟨hmem, hpre⟩ := List.mem_filter.1 hrow
  rw [hlink]
  exact hkeep _ (mem_of_mem_subtrees hsource) x hmem
    ((of_decide_eq_true hpre).trans (List.dropLast_prefix _))

end Preordered
end Rows
end BookForest

end Outline
