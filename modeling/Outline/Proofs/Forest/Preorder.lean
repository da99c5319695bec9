import Mathlib.Data.List.Basic
import Outline.Proofs.Forest.Built

/-!
Forests made from rows in preorder: below each item lie the rows whose path is the item's path and
one more page.

Rows are in preorder below a path when they are in the order of their paths and hold, with a row,
the rows on the way to it. The rows that lie deeper than the first one and directly follow it are
then exactly those below it.
-/
namespace Outline
set_option autoImplicit false

namespace Forest

variable {α : Type} {p q : α → Bool}

/-- All trees of a forest, each before those below it. -/
def subtrees : Forest α → List (α × Forest α)
  | nil => []
  | cons item below rest => (item, below) :: (subtrees below ++ subtrees rest)

theorem map_fst_subtrees (f : Forest α) : f.subtrees.map (·.1) = f.preorder := by
  induction f with
  | nil => rfl
  | cons item below rest ihbelow ihrest =>
    rw [subtrees, List.map_cons, List.map_append, ihbelow, ihrest, preorder]

theorem exists_mem_subtrees {f : Forest α} {item : α} (h : item ∈ f.preorder) :
    ∃ below, (item, below) ∈ f.subtrees := by
  rw [← map_fst_subtrees, List.mem_map] at h
  obtain ⟨⟨_, below⟩, htree, rfl⟩ := h
  exact ⟨below, htree⟩

theorem preorder_split (q : α → Bool) (f : Forest α) :
    (f.takeWhile q).preorder ++ (f.dropWhile q).preorder = f.preorder := by
  induction f with
  | nil => rfl
  | cons item below rest _ ih =>
    rw [takeWhile, dropWhile]
    split
    · rw [preorder, preorder, List.cons_append, List.append_assoc, ih]
    · rfl

section Nested

variable (h : ∀ a, p a = true → q a = true)
include h

theorem takeWhile_takeWhile_of_imp (f : Forest α) :
    (f.takeWhile q).takeWhile p = f.takeWhile p := by
  induction f with
  | nil => rfl
  | cons item below rest _ ih =>
    by_cases hp : p item = true
    · simp only [takeWhile, hp, h item hp, if_true, ih]
    · by_cases hq : q item = true <;> simp [takeWhile, hp, hq]

theorem dropWhile_takeWhile_of_imp (f : Forest α) :
    (f.takeWhile q).dropWhile p = (f.dropWhile p).takeWhile q := by
  induction f with
  | nil => rfl
  | cons item below rest _ ih =>
    by_cases hp : p item = true
    · simp only [takeWhile, dropWhile, hp, h item hp, if_true, ih]
    · by_cases hq : q item = true <;> simp [takeWhile, dropWhile, hp, hq]

theorem dropWhile_dropWhile_of_imp (f : Forest α) :
    (f.dropWhile p).dropWhile q = f.dropWhile q := by
  induction f with
  | nil => rfl
  | cons item below rest _ ih =>
    by_cases hp : p item = true
    · simp only [dropWhile, hp, h item hp, if_true, ih]
    · simp [dropWhile, hp]

end Nested

end Forest

namespace BookForest

variable {active : PageId → Bool}

theorem links_cons (item : Item) (below rest : BookForest) :
    links (.cons item below rest) = item.link :: (links below ++ links rest) := by
  rw [links, Forest.preorder, List.map_cons, List.map_append, links, links]

section Rows

/-- The rows that lie deeper than a row and directly follow it. -/
def nested (l : Link) (rows : List Link) : List Link := rows.takeWhile (l.depth < ·.depth)

/-- The rows from the first on that does not lie deeper than a row. -/
def later (l : Link) (rows : List Link) : List Link := rows.dropWhile (l.depth < ·.depth)

theorem nested_append_later (l : Link) (rows : List Link) :
    nested l rows ++ later l rows = rows :=
  List.takeWhile_append_dropWhile

theorem nested_sublist (l : Link) (rows : List Link) : (nested l rows).Sublist rows :=
  List.takeWhile_sublist _

theorem later_sublist (l : Link) (rows : List Link) : (later l rows).Sublist rows :=
  List.dropWhile_sublist _

/-- The first of the later rows does not lie deeper. -/
theorem depth_le_of_later {l y : Link} {rows rest : List Link} (h : later l rows = y :: rest) :
    y.depth ≤ l.depth := by
  have hstop := List.head?_dropWhile_not (fun k : Link => decide (l.depth < k.depth)) rows
  rw [← later, h] at hstop
  simpa using hstop

/-- What holds of no rows, and of some rows when it holds of those nested below the first one and of
those after them, holds of all. -/
theorem rows_induction {law : List Link → Prop} (nil : law [])
    (cons : ∀ l rows, law (nested l rows) → law (later l rows) → law (l :: rows)) :
    ∀ rows, law rows := by
  intro rows
  induction hlen : rows.length using Nat.strongRecOn generalizing rows with
  | _ n ih =>
    cases rows with
    | nil => exact nil
    | cons l rows =>
      rw [List.length_cons] at hlen
      have hnested := (nested_sublist l rows).length_le
      have hlater := (later_sublist l rows).length_le
      exact cons l rows (ih _ (by omega) _ rfl) (ih _ (by omega) _ rfl)

theorem preorder_ofRows (active : PageId → Bool) (rows : List Link) :
    (ofRows active rows).preorder = rows.map fun l => ⟨l, none, active l.nid⟩ := by
  induction rows with
  | nil => rfl
  | cons l rows ih =>
    rw [ofRows, adopt, Forest.preorder, Forest.preorder_split, ih, List.map_cons]

theorem links_ofRows (active : PageId → Bool) (rows : List Link) :
    (ofRows active rows).links = rows := by
  rw [links, preorder_ofRows, List.map_map]
  exact List.map_id _

/-- Taking leading trees that lie deeper than a level is taking leading rows, and so is dropping
them. -/
theorem ofRows_split (active : PageId → Bool) (d : Nat) (rows : List Link) :
    (ofRows active rows).takeWhile (d < ·.link.depth) =
      ofRows active (rows.takeWhile (d < ·.depth)) ∧
    (ofRows active rows).dropWhile (d < ·.link.depth) =
      ofRows active (rows.dropWhile (d < ·.depth)) := by
  induction rows with
  | nil => exact ⟨rfl, rfl⟩
  | cons l rows ih =>
    by_cases hd : d < l.depth
    · have hdeeper : ∀ item : Item, decide (l.depth < item.link.depth) = true →
          decide (d < item.link.depth) = true :=
        fun item hitem => decide_eq_true (Nat.lt_trans hd (of_decide_eq_true hitem))
      simp only [List.takeWhile_cons, List.dropWhile_cons, ofRows, adopt, Forest.takeWhile,
        Forest.dropWhile, hd, decide_true, if_true, ← ih.1, ← ih.2]
      rw [Forest.takeWhile_takeWhile_of_imp hdeeper, Forest.dropWhile_takeWhile_of_imp hdeeper,
        Forest.dropWhile_dropWhile_of_imp hdeeper]
      exact ⟨rfl, rfl⟩
    · simp [ofRows, adopt, Forest.takeWhile, Forest.dropWhile, hd]

/-- A row adopts the deeper rows that directly follow it. -/
theorem ofRows_cons (l : Link) (rows : List Link) :
    ofRows active (l :: rows) =
      .cons ⟨l, none, active l.nid⟩ (ofRows active (nested l rows))
        (ofRows active (later l rows)) := by
  obtain ⟨htake, hdrop⟩ := ofRows_split active l.depth rows
  rw [ofRows, adopt, htake, hdrop]
  rfl

theorem mem_of_mem_subtrees {rows : List Link} {tree : Item × BookForest}
    (h : tree ∈ (ofRows active rows).subtrees) : tree.1.link ∈ rows := by
  have hitem := List.mem_map_of_mem (f := (·.1)) h
  rw [Forest.map_fst_subtrees, preorder_ofRows, List.mem_map] at hitem
  obtain ⟨l, hl, hitem⟩ := hitem
  rw [← hitem]
  exact hl

theorem rowsFrom_eq_self {minDepth : Nat} {rows : List Link} (h : ∀ l ∈ rows, minDepth ≤ l.depth) :
    rowsFrom minDepth none rows = rows := by
  induction rows with
  | nil => rfl
  | cons l rows ih =>
    rw [rowsFrom, if_neg (by simp), if_neg (Nat.not_lt.2 (h l List.mem_cons_self)),
      ih fun k hk => h k (List.mem_cons_of_mem _ hk)]

end Rows

section Paths

variable {a b c : List PageId}

/-- What stands between a path and one that it starts, it starts as well. -/
theorem prefix_of_between (hab : a < b) (hbc : b < c) (hac : a <+: c) : a <+: b := by
  induction a generalizing b c with
  | nil => exact List.nil_prefix
  | cons x a ih =>
    obtain ⟨tail, rfl⟩ := hac
    cases b with
    | nil => exact absurd hab (List.not_lt_nil _)
    | cons y b =>
      rw [List.cons_append] at hbc
      rcases List.cons_lt_cons_iff.1 hab with hxy | ⟨rfl, hab'⟩
      · rcases List.cons_lt_cons_iff.1 hbc with hyx | ⟨rfl, _⟩
        · exact absurd (Int64.lt_trans hxy hyx) Int64.lt_irrefl
        · exact absurd hxy Int64.lt_irrefl
      · rcases List.cons_lt_cons_iff.1 hbc with hyx | ⟨_, hbc'⟩
        · exact absurd hyx Int64.lt_irrefl
        · exact List.cons_prefix_cons.2 ⟨rfl, ih hab' hbc' (List.prefix_append _ _)⟩

theorem path_lt_asymm (h : a < b) : ¬ b < a :=
  fun h' => List.lt_irrefl _ (List.lt_trans h h')

/-- Without their last ids, a path and one that it starts are still such paths. -/
theorem prefix_dropLast (h : a <+: b) : a.dropLast <+: b.dropLast := by
  rw [b.dropLast_eq_take, List.prefix_take_iff, List.length_dropLast]
  exact ⟨(List.dropLast_prefix _).trans h, Nat.sub_le_sub_right h.length_le 1⟩

/-- A path comes after the one that leads to it. -/
theorem dropLast_lt (h : a ≠ []) : a.dropLast < a := by
  have hle : a.dropLast ≤ a := (List.dropLast_prefix a).le
  rcases List.le_iff_lt_or_eq.1 hle with hlt | heq
  · exact hlt
  · have hlen := congrArg List.length heq
    have hpos := List.length_pos_iff.2 h
    rw [List.length_dropLast] at hlen
    omega

/-- A path is shorter than those of the places below it. -/
theorem length_lt_of_prefix_dropLast (hb : b ≠ []) (h : a <+: b.dropLast) :
    a.length < b.length := by
  have hle := h.length_le
  have hpos := List.length_pos_iff.2 hb
  rw [List.length_dropLast] at hle
  omega

end Paths

/-- Rows in preorder that lie below a path, with all rows on the way from it to them. -/
structure Preordered (up : List PageId) (rows : List Link) : Prop where
  sorted : rows.Pairwise fun a b => a.path < b.path
  below : ∀ l ∈ rows, l.path ≠ [] ∧ up <+: l.path.dropLast
  closed : ∀ l ∈ rows, l.path.dropLast = up ∨ ∃ p ∈ rows, p.path = l.path.dropLast
  depth : ∀ l ∈ rows, l.path.length = l.depth

namespace Preordered

variable {up : List PageId} {l x : Link} {rows : List Link}

theorem length_lt (h : Preordered up rows) (hx : x ∈ rows) : up.length < x.path.length :=
  length_lt_of_prefix_dropLast (h.below x hx).1 (h.below x hx).2

/-- The first of some rows in preorder is at their top. -/
theorem dropLast_head (h : Preordered up (l :: rows)) : l.path.dropLast = up := by
  rcases h.closed l List.mem_cons_self with hup | ⟨p, hp, hpl⟩
  · exact hup
  · have hlt := dropLast_lt (h.below l List.mem_cons_self).1
    rw [← hpl] at hlt
    rcases List.mem_cons.1 hp with rfl | hp
    · exact absurd hlt (List.lt_irrefl _)
    · exact absurd ((List.pairwise_cons.1 h.sorted).1 p hp) (path_lt_asymm hlt)

theorem length_head (h : Preordered up (l :: rows)) : l.path.length = up.length + 1 := by
  have hpos := List.length_pos_iff.2 (h.below l List.mem_cons_self).1
  rw [← h.dropLast_head, List.length_dropLast]
  omega

theorem depth_lt_of_nested (hx : x ∈ nested l rows) : l.depth < x.depth := by
  have hall := List.all_takeWhile (l := rows) (p := fun k : Link => decide (l.depth < k.depth))
  exact of_decide_eq_true (List.all_eq_true.1 hall x hx)

/-- The deeper rows that directly follow the first one come with the rows above them. -/
theorem parent_mem (h : Preordered up (l :: rows)) (hx : x ∈ nested l rows) :
    ∃ p, p.path = x.path.dropLast ∧ (p = l ∨ p ∈ nested l rows) := by
  have hmem : x ∈ l :: rows := List.mem_cons_of_mem _ ((nested_sublist l rows).subset hx)
  have hxlt := dropLast_lt (h.below x hmem).1
  rcases h.closed x hmem with hup | ⟨p, hp, hpx⟩
  · -- Beside the first row nothing lies deeper.
    have hdeep := depth_lt_of_nested hx
    rw [← h.depth x hmem, ← h.depth l List.mem_cons_self, h.length_head, ← hup,
      List.length_dropLast] at hdeep
    omega
  · refine ⟨p, hpx, ?_⟩
    rcases List.mem_cons.1 hp with rfl | hp
    · exact .inl rfl
    · rw [← nested_append_later l rows, List.mem_append] at hp
      rcases hp with hp | hp
      · exact .inr hp
      · have hsorted := (List.pairwise_cons.1 h.sorted).2
        rw [← nested_append_later l rows] at hsorted
        rw [← hpx] at hxlt
        exact absurd ((List.pairwise_append.1 hsorted).2.2 x hx p hp) (path_lt_asymm hxlt)

theorem prefix_of_nested (h : Preordered up (l :: rows)) (hx : x ∈ nested l rows) :
    l.path <+: x.path.dropLast := by
  induction hlen : x.path.length using Nat.strongRecOn generalizing x with
  | _ n ih =>
    obtain ⟨p, hpx, hp⟩ := h.parent_mem hx
    rw [← hpx]
    rcases hp with rfl | hp
    · exact List.prefix_refl _
    · have hmem : x ∈ l :: rows := List.mem_cons_of_mem _ ((nested_sublist l rows).subset hx)
      have hpos := List.length_pos_iff.2 (h.below x hmem).1
      refine (ih p.path.length ?_ hp rfl).trans (List.dropLast_prefix _)
      rw [hpx, List.length_dropLast]
      omega

theorem not_prefix_of_later (h : Preordered up (l :: rows)) (hx : x ∈ later l rows) :
    ¬ l.path <+: x.path := by
  obtain ⟨hfirst, hsorted⟩ := List.pairwise_cons.1 h.sorted
  have hsub := (later_sublist l rows).subset
  have hlater := hsorted.sublist (later_sublist l rows)
  cases hrest : later l rows with
  | nil =>
    rw [hrest] at hx
    cases hx
  | cons y rest =>
    have hshallow := depth_le_of_later hrest
    rw [hrest] at hx hlater hsub
    have hmem := hsub List.mem_cons_self
    have hy : l.path < y.path := hfirst y hmem
    have hstop : ¬ l.path <+: y.path := by
      intro hpre
      rw [← h.depth l List.mem_cons_self, ← h.depth y (List.mem_cons_of_mem _ hmem)] at hshallow
      rw [hpre.eq_of_length_le hshallow] at hy
      exact List.lt_irrefl _ hy
    rcases List.mem_cons.1 hx with rfl | hx
    · exact hstop
    · exact fun hpre => hstop (prefix_of_between hy ((List.pairwise_cons.1 hlater).1 x hx) hpre)

/-- The deeper rows that directly follow the first one are in preorder below it. -/
theorem of_nested (h : Preordered up (l :: rows)) : Preordered l.path (nested l rows) := by
  have hsub : ∀ k ∈ nested l rows, k ∈ l :: rows :=
    fun k hk => List.mem_cons_of_mem _ ((nested_sublist l rows).subset hk)
  refine ⟨(List.pairwise_cons.1 h.sorted).2.sublist (nested_sublist l rows), ?_, ?_,
    fun k hk => h.depth k (hsub k hk)⟩
  · intro k hk
    exact ⟨(h.below k (hsub k hk)).1, h.prefix_of_nested hk⟩
  · intro k hk
    obtain ⟨p, hpk, rfl | hp⟩ := h.parent_mem hk
    · exact .inl hpk.symm
    · exact .inr ⟨p, hp, hpk⟩

/-- The rows after them are in preorder beside the first one. -/
theorem of_later (h : Preordered up (l :: rows)) : Preordered up (later l rows) := by
  have hsub : ∀ k ∈ later l rows, k ∈ l :: rows :=
    fun k hk => List.mem_cons_of_mem _ ((later_sublist l rows).subset hk)
  refine ⟨(List.pairwise_cons.1 h.sorted).2.sublist (later_sublist l rows),
    fun k hk => h.below k (hsub k hk), ?_, fun k hk => h.depth k (hsub k hk)⟩
  intro k hk
  rcases h.closed k (hsub k hk) with hup | ⟨p, hp, hpk⟩
  · exact .inl hup
  · have hnot : ¬ l.path <+: p.path := by
      rw [hpk]
      exact fun hpre => h.not_prefix_of_later hk (hpre.trans (List.dropLast_prefix _))
    refine .inr ⟨p, ?_, hpk⟩
    rcases List.mem_cons.1 hp with rfl | hp
    · exact absurd (List.prefix_refl _) hnot
    · rw [← nested_append_later l rows, List.mem_append] at hp
      rcases hp with hp | hp
      · exact absurd ((h.prefix_of_nested hp).trans (List.dropLast_prefix _)) hnot
      · exact hp

/-- The rows directly below a path. -/
def children (up : List PageId) (rows : List Link) : List Link :=
  rows.filter (·.path.dropLast = up)

theorem children_cons (up : List PageId) (l : Link) (rows : List Link) :
    children up (l :: rows) = children up [l] ++
      (children up (nested l rows) ++ children up (later l rows)) := by
  simp only [children, ← List.filter_append, nested_append_later, List.singleton_append]

theorem children_eq_nil {up' : List PageId} (h : ∀ l ∈ rows, l.path.dropLast ≠ up') :
    children up' rows = [] := by
  rw [children, List.filter_eq_nil_iff]
  intro l hl
  simpa using h l hl

/-- Of some rows in preorder, those directly below the path are at the top. -/
theorem tops_ofRows (h : Preordered up rows) (active : PageId → Bool) :
    (ofRows active rows).tops.map Item.link = children up rows := by
  induction rows using rows_induction generalizing up with
  | nil => rfl
  | cons l rows _ ih =>
    have hself : children up [l] = [l] :=
      List.filter_cons_of_pos (decide_eq_true h.dropLast_head)
    have hnone : children up (nested l rows) = [] := by
      apply children_eq_nil
      intro k hk htop
      have hlong := (h.prefix_of_nested hk).length_le
      rw [htop, h.length_head] at hlong
      omega
    rw [ofRows_cons, Forest.tops, List.map_cons, ih h.of_later, children_cons, hself, hnone]
    rfl

theorem children_head_eq_nil (h : Preordered up (l :: rows)) {up' : List PageId}
    (hlong : up.length < up'.length) : children up' [l] = [] := by
  apply children_eq_nil
  intro k hk hkup
  rw [List.mem_singleton.1 hk, h.dropLast_head] at hkup
  rw [hkup] at hlong
  exact Nat.lt_irrefl _ hlong

theorem children_later_eq_nil (h : Preordered up (l :: rows)) {up' : List PageId}
    (hpre : l.path <+: up') : children up' (later l rows) = [] := by
  apply children_eq_nil
  intro k hk hkup
  refine h.not_prefix_of_later hk (hpre.trans ?_)
  rw [← hkup]
  exact List.dropLast_prefix _

/-- Below each item lie the rows whose path is the item's path and one more page. -/
theorem tops_subtrees (h : Preordered up rows) :
    ∀ tree ∈ (ofRows active rows).subtrees,
      tree.2.tops.map Item.link = children tree.1.link.path rows := by
  induction rows using rows_induction generalizing up with
  | nil => exact fun tree htree => nomatch htree
  | cons l rows ihnested ihlater =>
    intro tree htree
    rw [ofRows_cons, Forest.subtrees, List.mem_cons, List.mem_append] at htree
    have hlen := h.length_head
    rw [children_cons]
    -- The tree is that of the first row, or one of those below it, or one of those after it.
    rcases htree with rfl | htree | htree
    · rw [h.of_nested.tops_ofRows, h.children_head_eq_nil (by rw [hlen]; omega),
        h.children_later_eq_nil List.prefix_rfl, List.nil_append, List.append_nil]
    · have hpre := (h.prefix_of_nested (mem_of_mem_subtrees htree)).trans (List.dropLast_prefix _)
      have hlong := hpre.length_le
      rw [ihnested h.of_nested tree htree, h.children_head_eq_nil (by omega),
        h.children_later_eq_nil hpre, List.nil_append, List.append_nil]
    · have hmem := mem_of_mem_subtrees htree
      have hnested : children tree.1.link.path (nested l rows) = [] := by
        apply children_eq_nil
        intro k hk hkup
        refine h.not_prefix_of_later hmem ?_
        rw [← hkup]
        exact h.prefix_of_nested hk
      rw [ihlater h.of_later tree htree, h.children_head_eq_nil (h.of_later.length_lt hmem), hnested,
        List.nil_append, List.nil_append]

end Preordered

end BookForest
end Outline
