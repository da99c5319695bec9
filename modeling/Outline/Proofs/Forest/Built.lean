import Outline.Forest.Build

/-!
Forests made from rows: each item lies deeper than the items above it, so there are no more levels
than depths.
-/
namespace Outline
set_option autoImplicit false

namespace Forest

variable {α : Type} {p : α → Prop} {q : α → Bool} {f : Forest α}

/-- Whether all items of a forest have a property. -/
def All (p : α → Prop) : Forest α → Prop
  | .nil => True
  | .cons item below rest => p item ∧ All p below ∧ All p rest

theorem All.takeWhile (h : f.All p) : (f.takeWhile q).All p := by
  induction f with
  | nil => trivial
  | cons item below rest _ ih =>
    obtain ⟨hitem, hbelow, hrest⟩ := h
    rw [Forest.takeWhile]
    split
    · exact ⟨hitem, hbelow, ih hrest⟩
    · trivial

theorem All.dropWhile (h : f.All p) : (f.dropWhile q).All p := by
  induction f with
  | nil => trivial
  | cons item below rest _ ih =>
    rw [Forest.dropWhile]
    split
    · exact ih h.2.2
    · exact h

end Forest

namespace BookForest

/-- Whether all items of a forest lie deeper than a level and than the items above them. -/
def DeeperThan : Nat → BookForest → Prop
  | _, .nil => True
  | level, .cons item below rest =>
    level < item.link.depth ∧ DeeperThan item.link.depth below ∧ DeeperThan level rest

section DeeperThan

variable {q : Item → Bool} {f : BookForest} {level : Nat}

/-- Leading items that lie deeper than a row lie deeper than its level. -/
theorem DeeperThan.takeWhile (h : f.DeeperThan level) (l : Link) :
    DeeperThan l.depth (f.takeWhile (l.depth < ·.link.depth)) := by
  induction f with
  | nil => trivial
  | cons item below rest _ ih =>
    obtain ⟨_, hbelow, hrest⟩ := h
    rw [Forest.takeWhile]
    split
    · next hd => exact ⟨of_decide_eq_true hd, hbelow, ih hrest⟩
    · trivial

theorem DeeperThan.dropWhile (h : f.DeeperThan level) :
    DeeperThan level (f.dropWhile q) := by
  induction f with
  | nil => trivial
  | cons item below rest _ ih =>
    rw [Forest.dropWhile]
    split
    · exact ih h.2.2
    · exact h

/-- A forest has no more levels than there are depths for its items. -/
theorem DeeperThan.height_le {most : Nat} (h : f.DeeperThan level)
    (hmost : f.All fun item => item.link.depth ≤ most) : f.height ≤ most - level := by
  induction f generalizing level with
  | nil => exact Nat.zero_le _
  | cons item below rest ihbelow ihrest =>
    obtain ⟨hlevel, hbelow, hrest⟩ := h
    obtain ⟨hitem, hmostBelow, hmostRest⟩ := hmost
    have h1 := ihbelow hbelow hmostBelow
    have h2 := ihrest hrest hmostRest
    rw [Forest.height]
    omega

end DeeperThan

section Build

variable {active : PageId → Bool} {rows : List Link}

theorem mem_rowsFrom {minDepth : Nat} (rows : List Link) :
    ∀ (hidden : Option Nat) (l : Link), l ∈ rowsFrom minDepth hidden rows → l ∈ rows := by
  induction rows with
  | nil => intro hidden l hl; cases hl
  | cons row rows ih =>
    intro hidden l hl
    rw [rowsFrom] at hl
    split at hl
    · exact List.mem_cons_of_mem _ (ih _ l hl)
    · split at hl
      · exact List.mem_cons_of_mem _ (ih _ l hl)
      · rcases List.mem_cons.1 hl with rfl | hl
        · exact List.mem_cons_self
        · exact List.mem_cons_of_mem _ (ih _ l hl)

theorem all_ofRows {p : Link → Prop} (h : ∀ l ∈ rows, p l) :
    (ofRows active rows).All fun item => p item.link := by
  induction rows with
  | nil => trivial
  | cons l rows ih =>
    have hrest := ih fun k hk => h k (List.mem_cons_of_mem _ hk)
    exact ⟨h l List.mem_cons_self, hrest.takeWhile, hrest.dropWhile⟩

theorem deeperThan_ofRows (h : ∀ l ∈ rows, 0 < l.depth) :
    (ofRows active rows).DeeperThan 0 := by
  induction rows with
  | nil => trivial
  | cons l rows ih =>
    have hrest := ih fun k hk => h k (List.mem_cons_of_mem _ hk)
    exact ⟨h l List.mem_cons_self, hrest.takeWhile l, hrest.dropWhile⟩

theorem all_build {p : Link → Prop} (minDepth : Nat) (h : ∀ l ∈ rows, p l) :
    (build active minDepth rows).All fun item => p item.link :=
  all_ofRows fun l hl => h l (mem_rowsFrom rows none l hl)

theorem ofRows_congr {active' : PageId → Bool} (h : ∀ l ∈ rows, active l.nid = active' l.nid) :
    ofRows active rows = ofRows active' rows := by
  induction rows with
  | nil => rfl
  | cons l rows ih =>
    rw [ofRows, ofRows, ih fun k hk => h k (List.mem_cons_of_mem _ hk), adopt, adopt,
      h l List.mem_cons_self]

/-- Which pages are marked matters for the pages of the rows only. -/
theorem build_congr {active' : PageId → Bool} (minDepth : Nat)
    (h : ∀ l ∈ rows, active l.nid = active' l.nid) :
    build active minDepth rows = build active' minDepth rows :=
  ofRows_congr fun l hl => h l (mem_rowsFrom rows none l hl)

/-- A forest made from rows has at most as many levels as the deepest row has above it. -/
theorem height_build_le {minDepth most : Nat} (h : ∀ l ∈ rows, 0 < l.depth ∧ l.depth ≤ most) :
    (build active minDepth rows).height ≤ most := by
  have hdeeper : (build active minDepth rows).DeeperThan 0 :=
    deeperThan_ofRows fun l hl => (h l (mem_rowsFrom rows none l hl)).1
  exact hdeeper.height_le (all_build minDepth fun l hl => (h l hl).2)

end Build

end BookForest
end Outline
