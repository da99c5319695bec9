import Mathlib.Data.List.TakeWhile
import Outline.Proofs.Forest.Preorder

/-!
Forests made from rows by loops that share one cursor.

One loop takes the rows of a level: it takes the row at the cursor, and then by another loop what
lies below it, until a row is shallower than the level. The other loop takes levels, each from the
depth of the row at the cursor on, until a row is not deeper than the one they are to come below. At
the top it takes levels until no row is left. Each round takes a row at least, so the loops end, and
what they make is the forest of the rows.
-/
namespace Outline
set_option autoImplicit false

/-- The trees of one forest before those of another. -/
def Forest.append {α : Type} : Forest α → Forest α → Forest α
  | .nil, g => g
  | .cons item below rest, g => .cons item below (rest.append g)

namespace BookForest

/-- What a loop has made of rows, with the rows from the cursor on. If the first row is at a depth
that is taken, the cursor has moved. -/
structure Taken (takes : Nat → Bool) (rows : List Link) where
  forest : BookForest
  rest : List Link
  le : rest.length ≤ rows.length
  lt : ∀ l ∈ rows.head?, takes l.depth = true → rest.length < rows.length

/-- What a loop has made that takes no row. -/
def Taken.stop {takes : Nat → Bool} {rows : List Link}
    (h : ∀ l ∈ rows.head?, ¬ takes l.depth = true) : Taken takes rows :=
  ⟨.nil, rows, Nat.le_refl _, fun l hl htakes => absurd htakes (h l hl)⟩

mutual

/-- The loop over the rows of a level: each with what lies below it. -/
def takeLevel (active : PageId → Bool) (takes : Nat → Bool) (rows : List Link) :
    Taken takes rows :=
  match rows with
  | [] => .stop (by simp)
  | l :: rows =>
    if h : takes l.depth then
      let below := takeLevels active (l.depth < ·) rows
      let siblings := takeLevel active takes below.rest
      have hlt : siblings.rest.length < (l :: rows).length :=
        Nat.lt_succ_of_le (Nat.le_trans siblings.le below.le)
      ⟨.cons ⟨l, none, active l.nid⟩ below.forest siblings.forest, siblings.rest,
        Nat.le_of_lt hlt, fun _ _ _ => hlt⟩
    else .stop (by simpa using h)
  termination_by (rows.length, 0)
  decreasing_by
    · exact Prod.Lex.left _ _ (Nat.lt_succ_self _)
    · exact Prod.Lex.left _ _ (Nat.lt_succ_of_le below.le)

/-- The loop over levels, each from the depth of the row at the cursor on. -/
def takeLevels (active : PageId → Bool) (takes : Nat → Bool) (rows : List Link) :
    Taken takes rows :=
  match rows with
  | [] => .stop (by simp)
  | l :: rows =>
    if h : takes l.depth then
      let first := takeLevel active (l.depth ≤ ·) (l :: rows)
      have hfirst : first.rest.length < (l :: rows).length := first.lt l rfl (by simp)
      let more := takeLevels active takes first.rest
      have hlt : more.rest.length < (l :: rows).length := Nat.lt_of_le_of_lt more.le hfirst
      ⟨first.forest.append more.forest, more.rest, Nat.le_of_lt hlt, fun _ _ _ => hlt⟩
    else .stop (by simpa using h)
  termination_by (rows.length, 1)
  decreasing_by
    · exact Prod.Lex.right _ Nat.zero_lt_one
    · exact Prod.Lex.left _ _ hfirst

end

/-- The forest of the rows from a least depth on, made by the loops. -/
def loopBuild (active : PageId → Bool) (minDepth : Nat) (rows : List Link) : BookForest :=
  (takeLevels active (fun _ => true) (rowsFrom minDepth none rows)).forest

variable {active : PageId → Bool} {takes : Nat → Bool} {rows more : List Link} {l : Link}

section Append

theorem nested_later_of_head? (hfirst : ∀ k ∈ more.head?, k.depth ≤ l.depth) :
    nested l more = [] ∧ later l more = more := by
  cases more with
  | nil => exact ⟨rfl, rfl⟩
  | cons k more =>
    have hk := hfirst k rfl
    exact ⟨List.takeWhile_cons_of_neg (by simpa using hk),
      List.dropWhile_cons_of_neg (by simpa using hk)⟩

theorem ofRows_cons_append (hbelow : ∀ k ∈ rows, l.depth < k.depth)
    (hfirst : ∀ k ∈ more.head?, k.depth ≤ l.depth) :
    ofRows active (l :: (rows ++ more)) =
      .cons ⟨l, none, active l.nid⟩ (ofRows active rows) (ofRows active more) := by
  obtain ⟨hnested, hlater⟩ := nested_later_of_head? hfirst
  unfold nested at hnested
  unfold later at hlater
  rw [ofRows_cons, nested, later, List.takeWhile_append_of_pos (by simpa using hbelow), hnested,
    List.append_nil, List.dropWhile_append_of_pos (by simpa using hbelow), hlater]

/-- Rows before one that is not deeper than any of them make trees before its own. -/
theorem ofRows_append (h : ∀ k ∈ rows, ∀ first ∈ more.head?, first.depth ≤ k.depth) :
    ofRows active (rows ++ more) = (ofRows active rows).append (ofRows active more) := by
  induction rows using rows_induction with
  | nil => rfl
  | cons l rows _ ihlater =>
    have hfirst : ∀ k ∈ (later l rows ++ more).head?, k.depth ≤ l.depth := by
      intro k hk
      cases hrest : later l rows with
      | nil =>
        rw [hrest, List.nil_append] at hk
        exact h l List.mem_cons_self k hk
      | cons y rest =>
        rw [hrest] at hk
        cases hk
        exact depth_le_of_later hrest
    have hlater := ihlater fun k hk =>
      h k (List.mem_cons_of_mem _ ((later_sublist l rows).subset hk))
    calc ofRows active (l :: rows ++ more)
        = ofRows active (l :: (nested l rows ++ (later l rows ++ more))) := by
          rw [← List.append_assoc, nested_append_later, List.cons_append]
      _ = _ := ofRows_cons_append (fun k hk => Preordered.depth_lt_of_nested hk) hfirst
      _ = _ := by rw [hlater, ofRows_cons, Forest.append]

end Append

/-- Whether a loop has made the forest of the rows that are taken and left those after them. -/
def Taken.Exact (active : PageId → Bool) (made : Taken takes rows) : Prop :=
  made.forest = ofRows active (rows.takeWhile (takes ·.depth)) ∧
    made.rest = rows.dropWhile (takes ·.depth)

section Exact

theorem Taken.exact_stop (h : ∀ l ∈ rows.head?, ¬ takes l.depth = true) :
    (Taken.stop h).Exact active := by
  cases rows with
  | nil => exact ⟨rfl, rfl⟩
  | cons l rows =>
    have hl := h l rfl
    constructor
    · rw [List.takeWhile_cons, if_neg hl]
      rfl
    · rw [List.dropWhile_cons, if_neg hl]
      rfl

theorem takeLevel_cons (active : PageId → Bool) (rows : List Link) (hl : takes l.depth = true) :
    (takeLevel active takes (l :: rows)).forest = .cons ⟨l, none, active l.nid⟩
        (takeLevels active (l.depth < ·) rows).forest
        (takeLevel active takes (takeLevels active (l.depth < ·) rows).rest).forest ∧
      (takeLevel active takes (l :: rows)).rest =
        (takeLevel active takes (takeLevels active (l.depth < ·) rows).rest).rest := by
  rw [takeLevel, dif_pos hl]
  exact ⟨rfl, rfl⟩

theorem takeLevels_cons (active : PageId → Bool) (rows : List Link) (hl : takes l.depth = true) :
    (takeLevels active takes (l :: rows)).forest =
        (takeLevel active (l.depth ≤ ·) (l :: rows)).forest.append
          (takeLevels active takes (takeLevel active (l.depth ≤ ·) (l :: rows)).rest).forest ∧
      (takeLevels active takes (l :: rows)).rest =
        (takeLevels active takes (takeLevel active (l.depth ≤ ·) (l :: rows)).rest).rest := by
  rw [takeLevels, dif_pos hl]
  exact ⟨rfl, rfl⟩

/-- Whether with a depth all greater ones are taken. -/
def Upward (takes : Nat → Bool) : Prop := ∀ d e, d ≤ e → takes d = true → takes e = true

/-- What the loop makes of a row of the level and of the rows below it comes before what it makes of
the rows after those. -/
theorem exact_takeLevel_cons (htakes : Upward takes) (hl : takes l.depth = true)
    (hbelow : (takeLevels active (l.depth < ·) rows).Exact active)
    (hafter : (takeLevel active takes (later l rows)).Exact active) :
    (takeLevel active takes (l :: rows)).Exact active := by
  have hdeeper : ∀ k ∈ nested l rows, l.depth < k.depth := fun k hk =>
    Preordered.depth_lt_of_nested hk
  have htake : ∀ k ∈ nested l rows, takes k.depth = true := fun k hk =>
    htakes _ _ (Nat.le_of_lt (hdeeper k hk)) hl
  have hfirst : ∀ k ∈ ((later l rows).takeWhile (takes ·.depth)).head?, k.depth ≤ l.depth := by
    intro k hk
    rw [List.head?_takeWhile, Option.mem_def, Option.filter_eq_some_iff] at hk
    obtain ⟨rest, hrest⟩ := List.head?_eq_some_iff.1 hk.1
    exact depth_le_of_later hrest
  have hnested : (takeLevels active (l.depth < ·) rows).forest = ofRows active (nested l rows) :=
    hbelow.1
  have hlater : (takeLevels active (l.depth < ·) rows).rest = later l rows := hbelow.2
  obtain ⟨hforest, hrest⟩ := takeLevel_cons active rows hl
  rw [hlater] at hforest hrest
  constructor
  · rw [hforest, hnested, hafter.1, List.takeWhile_cons, if_pos hl,
      ← ofRows_cons_append hdeeper hfirst, ← List.takeWhile_append_of_pos htake,
      nested_append_later]
  · rw [hrest, hafter.2, List.dropWhile_cons, if_pos hl, ← List.dropWhile_append_of_pos htake,
      nested_append_later]

/-- The rows of the first level come before those of the levels after it, none of which is deeper
than its first row. -/
theorem exact_takeLevels_cons (htakes : Upward takes) (hl : takes l.depth = true)
    (hlevel : (takeLevel active (l.depth ≤ ·) (l :: rows)).Exact active)
    (hafter : (takeLevels active takes
      ((l :: rows).dropWhile (l.depth ≤ ·.depth))).Exact active) :
    (takeLevels active takes (l :: rows)).Exact active := by
  have hlevelDepth : ∀ k ∈ (l :: rows).takeWhile (l.depth ≤ ·.depth), l.depth ≤ k.depth := by
    intro k hk
    have htaken := List.mem_takeWhile_imp hk
    exact of_decide_eq_true htaken
  have htake : ∀ k ∈ (l :: rows).takeWhile (l.depth ≤ ·.depth), takes k.depth = true :=
    fun k hk => htakes _ _ (hlevelDepth k hk) hl
  have hfirst : ∀ k ∈ (l :: rows).takeWhile (l.depth ≤ ·.depth),
      ∀ first ∈ (((l :: rows).dropWhile (l.depth ≤ ·.depth)).takeWhile (takes ·.depth)).head?,
        first.depth ≤ k.depth := by
    intro k hk first hmem
    rw [List.head?_takeWhile, Option.mem_def, Option.filter_eq_some_iff] at hmem
    have hstop := List.head?_dropWhile_not (fun k : Link => decide (l.depth ≤ k.depth)) (l :: rows)
    rw [hmem.1] at hstop
    have hshallow : ¬ l.depth ≤ first.depth := by simpa using hstop
    have hdeep := hlevelDepth k hk
    omega
  have hcursor : (takeLevel active (l.depth ≤ ·) (l :: rows)).rest =
      (l :: rows).dropWhile (l.depth ≤ ·.depth) := hlevel.2
  obtain ⟨hforest, hrest⟩ := takeLevels_cons active rows hl
  rw [hcursor] at hforest hrest
  constructor
  · rw [hforest, hlevel.1, hafter.1, ← ofRows_append hfirst, ← List.takeWhile_append_of_pos htake,
      List.takeWhile_append_dropWhile]
  · rw [hrest, hafter.2, ← List.dropWhile_append_of_pos htake, List.takeWhile_append_dropWhile]

/-- Both loops make the forest of the rows they take. -/
theorem exact_loops (active : PageId → Bool) (rows : List Link) :
    ∀ takes, Upward takes →
      (takeLevel active takes rows).Exact active ∧ (takeLevels active takes rows).Exact active := by
  -- The loop over levels starts with one of the same rows, all other calls are for fewer.
  induction hlen : rows.length using Nat.strongRecOn generalizing rows with
  | _ n ih =>
    intro takes htakes
    have hlt (d : Nat) : Upward (d < ·) := fun _ _ hle h =>
      decide_eq_true (Nat.lt_of_lt_of_le (of_decide_eq_true h) hle)
    have hle (d : Nat) : Upward (d ≤ ·) := fun _ _ hle h =>
      decide_eq_true (Nat.le_trans (of_decide_eq_true h) hle)
    cases rows with
    | nil =>
      rw [takeLevel, takeLevels]
      exact ⟨Taken.exact_stop _, Taken.exact_stop _⟩
    | cons l rows =>
      rw [List.length_cons] at hlen
      have hlater := (later_sublist l rows).length_le
      have hlevel : ∀ takes, Upward takes → (takeLevel active takes (l :: rows)).Exact active := by
        intro takes htakes
        by_cases hl : takes l.depth = true
        · exact exact_takeLevel_cons htakes hl (ih _ (by omega) rows rfl _ (hlt _)).2
            (ih _ (by omega) (later l rows) rfl takes htakes).1
        · rw [takeLevel, dif_neg hl]
          exact Taken.exact_stop _
      refine ⟨hlevel takes htakes, ?_⟩
      by_cases hl : takes l.depth = true
      · have hrest : ((l :: rows).dropWhile (l.depth ≤ ·.depth)).length ≤ rows.length := by
          rw [List.dropWhile_cons, if_pos (by simp)]
          exact (List.dropWhile_sublist _).length_le
        exact exact_takeLevels_cons htakes hl (hlevel _ (hle _))
          (ih _ (by omega) _ rfl takes htakes).2
      · rw [takeLevels, dif_neg hl]
        exact Taken.exact_stop _

end Exact

/-- The loops make the forest that is made from the last row to the first. -/
theorem loopBuild_eq_build (active : PageId → Bool) (minDepth : Nat) (rows : List Link) :
    loopBuild active minDepth rows = build active minDepth rows := by
  have hall : Upward fun _ => true := fun _ _ _ _ => rfl
  have hexact := (exact_loops active (rowsFrom minDepth none rows) _ hall).2.1
  rw [loopBuild, hexact, List.takeWhile_eq_self_iff.2 fun _ _ => rfl]
  rfl

end BookForest
end Outline
