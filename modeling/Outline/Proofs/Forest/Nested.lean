import Outline.Proofs.Forest.Visible

/-!
What lies below an item of a forest that was made from rows in the order of their paths.

The rows below an item are the deeper ones that directly follow its own, whether or not their paths
lead there. So a page may lie below one that is not on its path, but only where the row is missing
that its path has at that level.
-/
namespace Outline.BookForest
set_option autoImplicit false

variable {active : PageId → Bool} {rows after : List Link} {l n p x : Link}
  {tree : Item × BookForest}

/-- Nothing after the rows nested below a row lies deeper than a row among them. -/
theorem nested_append_later_of_lt (h : l.depth < n.depth) (after rows : List Link) :
    nested n (after ++ later l rows) = nested n after := by
  have hnone : nested n (later l rows) = [] := by
    cases hrest : later l rows with
    | nil => rfl
    | cons y rest =>
      have hshallow := depth_le_of_later hrest
      exact List.takeWhile_cons_of_neg (by simp only [decide_eq_true_eq]; omega)
  induction after with
  | nil => exact hnone
  | cons a after ih =>
    unfold nested at ih ⊢
    rw [List.cons_append, List.takeWhile_cons, List.takeWhile_cons, ih]

/-- Below the item of a row lie the rows nested below it. -/
theorem exists_split_of_mem_subtrees (h : tree ∈ (ofRows active rows).subtrees) :
    ∃ before after, rows = before ++ tree.1.link :: after ∧
      tree.2 = ofRows active (nested tree.1.link after) := by
  induction rows using rows_induction with
  | nil => cases h
  | cons l rows ihnested ihlater =>
    rw [ofRows_cons, Forest.subtrees, List.mem_cons, List.mem_append] at h
    rcases h with rfl | h | h
    · exact ⟨[], rows, rfl, rfl⟩
    · have hdeeper := Preordered.depth_lt_of_nested (mem_of_mem_subtrees h)
      obtain ⟨before, after, hrows, hbelow⟩ := ihnested h
      refine ⟨l :: before, after ++ later l rows, ?_, ?_⟩
      · calc l :: rows = l :: (nested l rows ++ later l rows) := by rw [nested_append_later]
          _ = l :: ((before ++ tree.1.link :: after) ++ later l rows) := by rw [← hrows]
          _ = _ := by rw [List.append_assoc]; rfl
      · rw [hbelow, nested_append_later_of_lt hdeeper]
    · obtain ⟨before, after, hrows, hbelow⟩ := ihlater h
      refine ⟨l :: (nested l rows ++ before), after, ?_, hbelow⟩
      rw [List.cons_append, List.append_assoc, ← hrows, nested_append_later]

theorem mem_rows_of_mem_below (h : tree ∈ (ofRows active rows).subtrees)
    (hx : x ∈ tree.2.links) : x ∈ rows := by
  have hall := (Forest.preorder_sublist_of_mem_subtrees h).map Item.link
  rw [← links, ← links, links_ofRows] at hall
  exact hall.subset hx

theorem depth_lt_of_mem_below (h : tree ∈ (ofRows active rows).subtrees)
    (hx : x ∈ tree.2.links) : tree.1.link.depth < x.depth := by
  obtain ⟨_, after, _, hbelow⟩ := exists_split_of_mem_subtrees h
  rw [hbelow, links_ofRows] at hx
  exact Preordered.depth_lt_of_nested hx

/-- Of the rows of one level, a page below an item of that level can have that of the item only on
its path. -/
theorem eq_of_mem_below (hsorted : rows.Pairwise fun a b => a.path < b.path)
    (hdepth : ∀ k ∈ rows, k.path.length = k.depth)
    (htree : tree ∈ (ofRows active rows).subtrees) (hx : x ∈ tree.2.links) (hp : p ∈ rows)
    (hlevel : p.depth = tree.1.link.depth) (hpath : p.path <+: x.path) : p = tree.1.link := by
  obtain ⟨before, after, hrows, hbelow⟩ := exists_split_of_mem_subtrees htree
  rw [hbelow, links_ofRows] at hx
  have hnested := (nested_sublist tree.1.link after).subset hx
  have hlen := (hdepth p hp).trans (hlevel.trans (hdepth _ (mem_of_mem_subtrees htree)).symm)
  rw [hrows, List.mem_append, List.mem_cons] at hp
  rw [hrows] at hsorted
  obtain ⟨_, htail, hbefore⟩ := List.pairwise_append.1 hsorted
  obtain ⟨hfirst, hafter⟩ := List.pairwise_cons.1 htail
  rcases hp with hp | rfl | hp
  · -- A row before that of the item, and on the path of a later one, is on the item's path too.
    have hlt := hbefore p hp _ List.mem_cons_self
    have hpre := prefix_of_between hlt (hfirst x hnested) hpath
    rw [hpre.eq_of_length hlen] at hlt
    exact absurd hlt (List.lt_irrefl _)
  · rfl
  · rw [← nested_append_later tree.1.link after, List.mem_append] at hp
    rcases hp with hp | hp
    · have hdeeper := Preordered.depth_lt_of_nested hp
      exact absurd hlevel (Nat.ne_of_gt hdeeper)
    · rw [← nested_append_later tree.1.link after] at hafter
      have hlt := (List.pairwise_append.1 hafter).2.2 x hx p hp
      exact absurd hpath.le (List.not_le.2 hlt)

end Outline.BookForest
