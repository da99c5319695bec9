import Outline.Proofs.Forest.Trimmed

/-!
Forests that differ in the order of siblings only.

Sorting puts siblings into another order and changes nothing else, and all forests that differ in
that way only come out the same. For this siblings need to have different ids; pages that are no
siblings may share one.
-/
namespace Outline
set_option autoImplicit false

namespace Forest

/-- Whether a forest becomes another one when siblings are put into another order, at any number of
levels. -/
inductive Rearranged {α : Type} : Forest α → Forest α → Prop
  | nil : Rearranged .nil .nil
  | cons {item : α} {below below' rest rest' : Forest α} :
      Rearranged below below' → Rearranged rest rest' →
      Rearranged (.cons item below rest) (.cons item below' rest')
  | swap (item item' : α) (below below' rest : Forest α) :
      Rearranged (.cons item below (.cons item' below' rest))
        (.cons item' below' (.cons item below rest))
  | trans {f g h : Forest α} : Rearranged f g → Rearranged g h → Rearranged f h

namespace Rearranged

variable {α : Type} {f g : Forest α}

theorem refl (f : Forest α) : Rearranged f f := by
  induction f with
  | nil => exact .nil
  | cons item below rest ihbelow ihrest => exact .cons ihbelow ihrest

theorem symm (h : Rearranged f g) : Rearranged g f := by
  induction h with
  | nil => exact .nil
  | cons _ _ ihbelow ihrest => exact .cons ihbelow ihrest
  | swap item item' below below' rest => exact .swap item' item below' below rest
  | trans _ _ ihfg ihgh => exact ihgh.trans ihfg

theorem tops (h : Rearranged f g) : f.tops.Perm g.tops := by
  induction h with
  | nil => exact .nil
  | cons _ _ _ ihrest => exact .cons _ ihrest
  | swap item item' below below' rest => exact .swap item' item rest.tops
  | trans _ _ ihfg ihgh => exact ihfg.trans ihgh

/-- Trees in another order make a rearranged forest. -/
theorem ofTrees_perm {ts us : List (α × Forest α)} (h : ts.Perm us) :
    Rearranged (ofTrees ts) (ofTrees us) := by
  induction h with
  | nil => exact .nil
  | cons tree _ ih => exact .cons (refl tree.2) ih
  | swap tree tree' ts => exact .swap tree'.1 tree.1 tree'.2 tree.2 (ofTrees ts)
  | trans _ _ ihfg ihgh => exact ihfg.trans ihgh

end Rearranged

end Forest

namespace BookForest

open Forest (Rearranged)

variable {f g below rest : BookForest} {item : Item}

theorem siblingsDiffer_cons_iff :
    SiblingsDiffer (.cons item below rest) ↔
      item.link.nid ∉ rest.tops.map (·.link.nid) ∧ below.SiblingsDiffer ∧ rest.SiblingsDiffer := by
  constructor
  · rintro ⟨htops, hbelow⟩
    rw [Forest.tops, List.map_cons, List.nodup_cons] at htops
    simp only [Forest.subtrees, List.forall_mem_cons, List.forall_mem_append] at hbelow
    exact ⟨htops.1, ⟨hbelow.1, hbelow.2.1⟩, ⟨htops.2, hbelow.2.2⟩⟩
  · rintro ⟨hitem, hbelow, hrest⟩
    constructor
    · rw [Forest.tops, List.map_cons, List.nodup_cons]
      exact ⟨hitem, hrest.tops⟩
    · simp only [Forest.subtrees, List.forall_mem_cons, List.forall_mem_append]
      exact ⟨hbelow.tops, hbelow.below, hrest.below⟩

theorem SiblingsDiffer.rearranged (hf : f.SiblingsDiffer) (h : Rearranged f g) :
    g.SiblingsDiffer := by
  induction h with
  | nil => exact hf
  | cons _ hrest ihbelow ihrest =>
    obtain ⟨hitem, hbelow, hrest'⟩ := siblingsDiffer_cons_iff.1 hf
    rw [(hrest.tops.map _).mem_iff] at hitem
    exact siblingsDiffer_cons_iff.2 ⟨hitem, ihbelow hbelow, ihrest hrest'⟩
  | swap item item' below below' rest =>
    obtain ⟨hitem, hbelow, hrest⟩ := siblingsDiffer_cons_iff.1 hf
    obtain ⟨hitem', hbelow', hrest⟩ := siblingsDiffer_cons_iff.1 hrest
    rw [Forest.tops, List.map_cons, List.mem_cons, not_or] at hitem
    refine siblingsDiffer_cons_iff.2
      ⟨?_, hbelow', siblingsDiffer_cons_iff.2 ⟨hitem.2, hbelow, hrest⟩⟩
    rw [Forest.tops, List.map_cons, List.mem_cons, not_or]
    exact ⟨Ne.symm hitem.1, hitem'⟩
  | trans _ _ ihfg ihgh => exact ihgh (ihfg hf)

/-- Sorting is a rearrangement. -/
theorem rearranged_sortBelow (f : BookForest) : Rearranged (sortBelow f) f := by
  induction f with
  | nil => exact .nil
  | cons item below rest ihbelow ihrest =>
    have hsorted : Rearranged (.ofTrees (sortTrees (sortBelow below).trees)) (sortBelow below) := by
      conv_rhs => rw [← Forest.ofTrees_trees (sortBelow below)]
      exact .ofTrees_perm (List.mergeSort_perm _ _)
    exact .cons (hsorted.trans ihbelow) ihrest

theorem rearranged_sort (f : BookForest) : Rearranged f.sort f := by
  have hsorted := Rearranged.ofTrees_perm (List.mergeSort_perm (sortBelow f).trees
    fun a b => a.1.key.le b.1.key)
  rw [Forest.ofTrees_trees] at hsorted
  exact hsorted.trans (rearranged_sortBelow f)

/-- The order in which sorted siblings come does not depend on the one they were in. -/
theorem sort_eq_of_perm (hf : (f.tops.map (·.link.nid)).Nodup)
    (h : (sortBelow f).trees.Perm (sortBelow g).trees) : f.sort = g.sort := by
  have hids := nodup_ids_sortBelow hf
  have hids' : ((sortBelow g).trees.map fun tree => tree.1.key.nid).Nodup :=
    (h.map fun tree => tree.1.key.nid).nodup_iff.1 hids
  have hsame : sortTrees (sortBelow f).trees = sortTrees (sortBelow g).trees :=
    SiblingKey.mergeSort_eq_of_perm (fun tree : Item × BookForest => tree.1.key) hids
      (h.trans (List.mergeSort_perm _ _).symm)
      (SiblingKey.pairwise_mergeSort (fun tree : Item × BookForest => tree.1.key) hids')
  rw [sort, sort, hsame]

theorem sortBelow_rearranged (hf : f.SiblingsDiffer) (h : Rearranged f g) :
    (sortBelow f).trees.Perm (sortBelow g).trees := by
  induction h with
  | nil => exact .nil
  | cons _ _ ihbelow ihrest =>
    obtain ⟨_, hbelow, hrest⟩ := siblingsDiffer_cons_iff.1 hf
    have hsame := sort_eq_of_perm hbelow.tops (ihbelow hbelow)
    rw [sort, sort] at hsame
    rw [sortBelow, sortBelow, hsame]
    exact .cons _ (ihrest hrest)
  | swap item item' below below' rest => exact .swap _ _ _
  | trans hfg _ ihfg ihgh => exact (ihfg hf).trans (ihgh (hf.rearranged hfg))

theorem sort_rearranged (hf : f.SiblingsDiffer) (h : Rearranged f g) : f.sort = g.sort :=
  sort_eq_of_perm hf.tops (sortBelow_rearranged hf h)

/-- A forest whose siblings have different ids is sorted by putting siblings into another order, and
then each list of siblings is strictly in the order of keys: of weights, then of titles without
regard to case and gaps, then of ids. Sorting it again changes nothing. And the forests that are
sorted to the same are just those that differ from it in the order of siblings only. -/
theorem sort_canonical (f : BookForest) (h : f.SiblingsDiffer) :
    Rearranged f f.sort ∧ f.sort.InOrder ∧ f.sort.sort = f.sort ∧
      ∀ g : BookForest, Rearranged f g ↔ f.sort = g.sort := by
  have horder := inOrder_sort h
  refine ⟨(rearranged_sort f).symm, horder, sort_of_inOrder horder, fun g => ?_⟩
  constructor
  · exact sort_rearranged h
  · intro hsame
    have hback := rearranged_sort g
    rw [← hsame] at hback
    exact (rearranged_sort f).symm.trans hback

/-- A page with two pages below it, one of which has the id of a page beside the first. -/
def shuffled : BookForest :=
  .cons ⟨.along [5] true 0, some "beta ", false⟩
    (.cons ⟨.along [5, 7] false 0, some " Two", true⟩ .nil
      (.cons ⟨.along [5, 3] false 0, some "one", false⟩ .nil .nil))
    (.cons ⟨.along [7] false 0, some "Alpha", false⟩ .nil
      (.cons ⟨.along [9] false (-1), none, false⟩ .nil .nil))

/-- The same pages, each list of siblings the other way round. -/
def reversed : BookForest :=
  .cons ⟨.along [9] false (-1), none, false⟩ .nil
    (.cons ⟨.along [7] false 0, some "Alpha", false⟩ .nil
      (.cons ⟨.along [5] true 0, some "beta ", false⟩
        (.cons ⟨.along [5, 3] false 0, some "one", false⟩ .nil
          (.cons ⟨.along [5, 7] false 0, some " Two", true⟩ .nil .nil))
        .nil))

/-- The two are sorted to the same, which is the second one. -/
theorem sort_canonical_shuffled :
    (shuffled.SiblingsDiffer ∧ Rearranged shuffled reversed) ∧
    shuffled.sort.InOrder ∧ shuffled.sort = reversed.sort ∧ reversed.sort = reversed := by
  have hdiffer : shuffled.SiblingsDiffer := ⟨by decide, by decide⟩
  have hreversed : Rearranged shuffled reversed := by
    refine .trans (.swap _ _ _ _ _) (.trans (.cons (.refl _) (.swap _ _ _ _ _)) ?_)
    refine .trans (.swap _ _ _ _ _) (.cons (.refl _) (.cons (.refl _) ?_))
    exact .cons (.swap _ _ _ _ _) (.refl _)
  obtain ⟨_, horder, _, hsame⟩ := sort_canonical shuffled hdiffer
  exact ⟨⟨hdiffer, hreversed⟩, horder, (hsame reversed).1 hreversed,
    sort_of_inOrder ⟨by decide, by decide⟩⟩

end BookForest

end Outline
