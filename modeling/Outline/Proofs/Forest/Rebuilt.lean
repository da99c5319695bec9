import Mathlib.Data.List.Chain
import Outline.Proofs.Forest.Loops
import Outline.Proofs.Forest.Nested

/-!
Forests that are built again from their own rows.

A forest read in preorder tells how deep its items lie, but not which lie below which. Building takes
the depths for that, so it makes the same forest again exactly of those that have the shape it gives
to all of them: from a parent to its children the depth grows, and among siblings it never does.
-/
namespace Outline.BookForest
set_option autoImplicit false

variable {active : PageId → Bool} {f below rest : BookForest} {item : Item} {level : Nat}

/-- Whether no item at the top lies deeper than the one before it. -/
def Descending (f : BookForest) : Prop :=
  f.tops.IsChain fun before after => after.link.depth ≤ before.link.depth

/-- Whether a forest has the shape that building gives. Its items have no titles, and those of active
pages are marked. Every child lies deeper than its parent, and no item deeper than the sibling before
it. -/
structure Tiered (active : PageId → Bool) (f : BookForest) : Prop where
  bare : ∀ item ∈ f.preorder, item.title = none
  marks : ∀ item ∈ f.preorder, item.active = active item.link.nid
  deeper : ∀ tree ∈ f.subtrees, ∀ child ∈ tree.2.tops, tree.1.link.depth < child.link.depth
  tops : f.Descending
  siblings : ∀ tree ∈ f.subtrees, Descending tree.2

theorem descending_cons_iff :
    Descending (.cons item below rest) ↔
      (∀ next ∈ rest.tops.head?, next.link.depth ≤ item.link.depth) ∧ rest.Descending :=
  List.isChain_cons

theorem tiered_nil (active : PageId → Bool) : Tiered active .nil :=
  ⟨nofun, nofun, nofun, .nil, nofun⟩

theorem tiered_cons_iff :
    Tiered active (.cons item below rest) ↔
      item = ⟨item.link, none, active item.link.nid⟩ ∧
      (∀ child ∈ below.tops, item.link.depth < child.link.depth) ∧
      (∀ next ∈ rest.tops.head?, next.link.depth ≤ item.link.depth) ∧
      below.Tiered active ∧ rest.Tiered active := by
  constructor
  · rintro ⟨hbare, hmarks, hdeeper, htops, hsiblings⟩
    simp only [Forest.preorder, Forest.subtrees, List.forall_mem_cons, List.forall_mem_append]
      at hbare hmarks hdeeper hsiblings
    obtain ⟨hnext, hrest⟩ := descending_cons_iff.1 htops
    refine ⟨?_, hdeeper.1, hnext,
      ⟨hbare.2.1, hmarks.2.1, hdeeper.2.1, hsiblings.1, hsiblings.2.1⟩,
      ⟨hbare.2.2, hmarks.2.2, hdeeper.2.2, hrest, hsiblings.2.2⟩⟩
    rw [← hbare.1, ← hmarks.1]
  · rintro ⟨hitem, hchildren, hnext, hbelow, hrest⟩
    refine ⟨?_, ?_, ?_, descending_cons_iff.2 ⟨hnext, hrest.tops⟩, ?_⟩
    all_goals
      simp only [Forest.preorder, Forest.subtrees, List.forall_mem_cons, List.forall_mem_append]
    · exact ⟨by rw [hitem], hbelow.bare, hrest.bare⟩
    · exact ⟨by rw [hitem], hbelow.marks, hrest.marks⟩
    · exact ⟨hchildren, hbelow.deeper, hrest.deeper⟩
    · exact ⟨hbelow.tops, hbelow.siblings, hrest.siblings⟩

/-- What the items at the top are deeper than, all items are deeper than. -/
theorem Tiered.lt_of_mem (h : f.Tiered active) (hlevel : ∀ top ∈ f.tops, level < top.link.depth) :
    ∀ l ∈ f.links, level < l.depth := by
  induction f generalizing level with
  | nil => exact nofun
  | cons item below rest ihbelow ihrest =>
    obtain ⟨_, hchildren, _, hbelow, hrest⟩ := tiered_cons_iff.1 h
    obtain ⟨hitem, htops⟩ := List.forall_mem_cons.1 hlevel
    intro l hl
    rw [links_cons, List.mem_cons, List.mem_append] at hl
    rcases hl with rfl | hl | hl
    · exact hitem
    · exact Nat.lt_trans hitem (ihbelow hbelow hchildren l hl)
    · exact ihrest hrest htops l hl

theorem head?_links (f : BookForest) : f.links.head? = f.tops.head?.map Item.link := by
  cases f <;> rfl

/-- The rows of a tree are taken for a tree again, as those below its item are deeper than the item's
row and the next one is not. -/
theorem Tiered.ofRows_links (h : f.Tiered active) : ofRows active f.links = f := by
  induction f with
  | nil => rfl
  | cons item below rest ihbelow ihrest =>
    obtain ⟨hitem, hchildren, hnext, hbelow, hrest⟩ := tiered_cons_iff.1 h
    have hfirst : ∀ l ∈ (links rest).head?, l.depth ≤ item.link.depth := by
      intro l hl
      rw [head?_links, Option.mem_def, Option.map_eq_some_iff] at hl
      obtain ⟨next, hmem, rfl⟩ := hl
      exact hnext next hmem
    rw [links_cons, ofRows_cons_append (hbelow.lt_of_mem hchildren) hfirst, ihbelow hbelow,
      ihrest hrest, ← hitem]

theorem mem_of_mem_tops_ofRows {rows : List Link} (h : item ∈ (ofRows active rows).tops) :
    item.link ∈ rows := by
  rw [← links_ofRows active rows]
  exact List.mem_map_of_mem ((Forest.tops_sublist _).subset h)

theorem tiered_ofRows (active : PageId → Bool) (rows : List Link) :
    (ofRows active rows).Tiered active := by
  induction rows using rows_induction with
  | nil => exact tiered_nil active
  | cons l rows ihnested ihlater =>
    rw [ofRows_cons, tiered_cons_iff]
    refine ⟨rfl, ?_, ?_, ihnested, ihlater⟩
    · intro child hchild
      exact Preordered.depth_lt_of_nested (mem_of_mem_tops_ofRows hchild)
    · intro next hnext
      have hhead := head?_links (ofRows active (later l rows))
      rw [links_ofRows, Option.mem_def.1 hnext, Option.map_some] at hhead
      obtain ⟨after, hafter⟩ := List.head?_eq_some_iff.1 hhead
      exact depth_le_of_later hafter

theorem build_zero (active : PageId → Bool) (rows : List Link) :
    build active 0 rows = ofRows active rows := by
  rw [build, rowsFrom_eq_self fun l _ => Nat.zero_le l.depth]

/-- A forest, whether it was built or not, is built again from its own rows exactly when it has the
shape that building gives; and whatever is built, from any rows and any least depth on, has that
shape and is built again as it is. -/
theorem build_links_iff (active : PageId → Bool) (f : BookForest) :
    (build active 0 f.links = f ↔ f.Tiered active) ∧
    ∀ (minDepth : Nat) (rows : List Link),
      (build active minDepth rows).Tiered active ∧
      build active 0 (build active minDepth rows).links = build active minDepth rows := by
  refine ⟨⟨fun h => ?_, fun h => ?_⟩, fun minDepth rows => ⟨tiered_ofRows active _, ?_⟩⟩
  · rw [← h, build_zero]
    exact tiered_ofRows active _
  · rw [build_zero]
    exact h.ofRows_links
  · rw [build_zero]
    exact (tiered_ofRows active _).ofRows_links

end Outline.BookForest
