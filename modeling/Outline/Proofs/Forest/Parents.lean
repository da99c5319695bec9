import Outline.Proofs.Forest.Loops

/-!
Which item lies above which in a forest made from rows.

Rows may come in any order and at any depths. Each comes below the last row before it that is
shallower, and to the top when there is none. Where rows above a least depth are left out, the rows
that are left are those before the first of them.
-/
namespace Outline
set_option autoImplicit false

namespace Forest

variable {α : Type}

theorem length_preorder (f : Forest α) : f.preorder.length = f.size := by
  induction f with
  | nil => rfl
  | cons item below rest ihbelow ihrest =>
    rw [preorder, size, List.length_cons, List.length_append, ihbelow, ihrest]
    omega

/-- For each item in preorder the place of the item above it, when the first item has a given place
and the items at the top come below the item at `up`. -/
def parentsFrom (up : Option Nat) (place : Nat) : Forest α → List (Option Nat)
  | nil => []
  | cons _ below rest =>
    up :: (parentsFrom (some place) (place + 1) below ++
      parentsFrom up (place + 1 + below.size) rest)

/-- For each item in preorder the place of the item above it, none at the top. -/
def parents (f : Forest α) : List (Option Nat) := f.parentsFrom none 0

end Forest

namespace BookForest

variable {active : PageId → Bool} {rows more before : List Link} {d : Nat}

/-- Whether a place is that of the last of some rows that is shallower than a depth, or there is no
such place and no such row. -/
def LastAbove (d : Nat) (rows : List Link) : Option Nat → Prop
  | none => ∀ l ∈ rows, d ≤ l.depth
  | some i => (∃ l, rows[i]? = some l ∧ l.depth < d) ∧
      ∀ j l, i < j → rows[j]? = some l → d ≤ l.depth

section LastAbove

/-- The place of the last of some rows that is shallower than a depth. -/
def lastAbove (d : Nat) : List Link → Option Nat
  | [] => none
  | l :: rows => ((lastAbove d rows).map (· + 1)).or (if l.depth < d then some 0 else none)

theorem lastAbove_append (d : Nat) (rows more : List Link) :
    lastAbove d (rows ++ more) =
      ((lastAbove d more).map (rows.length + ·)).or (lastAbove d rows) := by
  induction rows with
  | nil => simp [lastAbove]
  | cons l rows ih =>
    rw [List.cons_append, lastAbove, ih, lastAbove, List.length_cons]
    cases lastAbove d more with
    | none => rfl
    | some i => exact congrArg some (show rows.length + i + 1 = rows.length + 1 + i by omega)

theorem lastAbove_eq_none (h : ∀ l ∈ rows, d ≤ l.depth) : lastAbove d rows = none := by
  induction rows with
  | nil => rfl
  | cons l rows ih =>
    obtain ⟨hl, hrows⟩ := List.forall_mem_cons.1 h
    rw [lastAbove, ih hrows, if_neg (Nat.not_lt.2 hl)]
    rfl

theorem lastAbove_concat_of_lt {l : Link} (h : l.depth < d) (rows : List Link) :
    lastAbove d (rows ++ [l]) = some rows.length := by
  rw [lastAbove_append, lastAbove, if_pos h]
  rfl

/-- Neither a row nor what is nested below it is shallower than a row that is not deeper. -/
theorem lastAbove_append_nested {k l : Link} (h : k.depth ≤ l.depth) (before rows : List Link) :
    lastAbove k.depth (before ++ [l] ++ nested l rows) = lastAbove k.depth before := by
  have hnone : lastAbove k.depth (nested l rows) = none := lastAbove_eq_none fun n hn =>
    Nat.le_trans h (Nat.le_of_lt (Preordered.depth_lt_of_nested hn))
  rw [lastAbove_append, hnone, lastAbove_append, lastAbove, if_neg (Nat.not_lt.2 h)]
  rfl

theorem lastAbove_spec (d : Nat) (rows : List Link) : LastAbove d rows (lastAbove d rows) := by
  induction rows with
  | nil => exact fun _ hl => nomatch hl
  | cons l rows ih =>
    rw [lastAbove]
    cases hlast : lastAbove d rows with
    | some i =>
      rw [hlast] at ih
      obtain ⟨⟨k, hk, hkd⟩, hafter⟩ := ih
      show LastAbove d (l :: rows) (some (i + 1))
      refine ⟨⟨k, hk, hkd⟩, fun j k hj hk => ?_⟩
      obtain ⟨j, rfl⟩ : ∃ m, j = m + 1 := ⟨j - 1, by omega⟩
      exact hafter j k (by omega) hk
    | none =>
      rw [hlast] at ih
      by_cases hl : l.depth < d
      · rw [if_pos hl]
        refine ⟨⟨l, rfl, hl⟩, fun j k hj hk => ?_⟩
        obtain ⟨j, rfl⟩ : ∃ m, j = m + 1 := ⟨j - 1, by omega⟩
        exact ih k (List.mem_of_getElem? hk)
      · rw [if_neg hl]
        exact List.forall_mem_cons.2 ⟨Nat.not_lt.1 hl, ih⟩

end LastAbove

/-- For each of some rows the place of the last shallower one before it, which may be among those
that went before. -/
def placesAfter (before : List Link) : List Link → List (Option Nat)
  | [] => []
  | l :: rows => lastAbove l.depth before :: placesAfter (before ++ [l]) rows

theorem placesAfter_append (before rows more : List Link) :
    placesAfter before (rows ++ more) =
      placesAfter before rows ++ placesAfter (before ++ rows) more := by
  induction rows generalizing before with
  | nil => simp [placesAfter]
  | cons l rows ih =>
    rw [List.cons_append, placesAfter, ih, placesAfter, List.append_assoc]
    rfl

theorem getElem?_placesAfter (before rows : List Link) (i : Nat) :
    (placesAfter before rows)[i]? =
      rows[i]?.map fun l => lastAbove l.depth (before ++ rows.take i) := by
  induction rows generalizing before i with
  | nil => rfl
  | cons l rows ih =>
    cases i with
    | zero => simp [placesAfter]
    | succ i => simp [placesAfter, ih]

/-- The items of a forest made from rows come below the last shallower rows before them, when for
the rows at its top that row is at `up`. -/
theorem parentsFrom_ofRows (before : List Link) (up : Option Nat)
    (h : ∀ l ∈ rows, (∀ k ∈ rows.head?, l.depth ≤ k.depth) → lastAbove l.depth before = up) :
    (ofRows active rows).parentsFrom up before.length = placesAfter before rows := by
  induction rows using rows_induction generalizing before up with
  | nil => rfl
  | cons l rows ihnested ihlater =>
    have hself : lastAbove l.depth before = up := h l List.mem_cons_self (by simp)
    have hsize : (ofRows active (nested l rows)).size = (nested l rows).length := by
      rw [← Forest.length_preorder, preorder_ofRows, List.length_map]
    have hsplit : placesAfter (before ++ [l]) rows =
        placesAfter (before ++ [l]) (nested l rows) ++
          placesAfter (before ++ [l] ++ nested l rows) (later l rows) := by
      rw [← placesAfter_append, nested_append_later]
    have hbelow := ihnested (before ++ [l]) (some before.length) fun k hk _ =>
      lastAbove_concat_of_lt (Preordered.depth_lt_of_nested hk) before
    have hrest := ihlater (before ++ [l] ++ nested l rows) up (by
      -- Of the later rows only those that are not deeper than the first of them come to the top.
      intro k hk hfirst
      obtain ⟨first, rest, hrest⟩ := List.exists_cons_of_ne_nil (List.ne_nil_of_mem hk)
      have hkl : k.depth ≤ l.depth := by
        have hkf := hfirst first (by rw [hrest]; rfl)
        exact Nat.le_trans hkf (depth_le_of_later hrest)
      have hmem : k ∈ l :: rows := List.mem_cons_of_mem _ ((later_sublist l rows).subset hk)
      rw [lastAbove_append_nested hkl]
      exact h k hmem (by simpa using hkl))
    rw [List.length_append, List.length_singleton] at hbelow
    rw [List.length_append, List.length_append, List.length_singleton] at hrest
    rw [ofRows_cons, Forest.parentsFrom, hsize, hbelow, hrest, placesAfter, hself, hsplit]

theorem parents_ofRows (active : PageId → Bool) (rows : List Link) :
    (ofRows active rows).parents = placesAfter [] rows :=
  parentsFrom_ofRows [] none fun _ _ _ => rfl

/-- After a row that is left out, none is taken any more: a later one is deeper, or itself above the
least depth. -/
theorem rowsFrom_of_hidden {minDepth hidden : Nat} (h : hidden < minDepth) (rows : List Link) :
    rowsFrom minDepth (some hidden) rows = [] := by
  induction rows generalizing hidden with
  | nil => rfl
  | cons l rows ih =>
    rw [rowsFrom, Option.any_some]
    by_cases hdeeper : hidden < l.depth
    · rw [if_pos (decide_eq_true hdeeper)]
      exact ih h
    · have hl : l.depth < minDepth := by omega
      rw [if_neg (by simpa using hdeeper), if_pos hl]
      exact ih hl

theorem rowsFrom_eq_takeWhile (minDepth : Nat) (rows : List Link) :
    rowsFrom minDepth none rows = rows.takeWhile (minDepth ≤ ·.depth) := by
  induction rows with
  | nil => rfl
  | cons l rows ih =>
    rw [rowsFrom, if_neg (by simp)]
    by_cases hl : l.depth < minDepth
    · rw [if_pos hl, rowsFrom_of_hidden hl, List.takeWhile_cons_of_neg (by simpa using hl)]
    · rw [if_neg hl, ih, List.takeWhile_cons_of_pos (by simpa using hl)]

/-- Of any rows, in any order and at any depths, with any pages active and from any least depth on,
the loops come to an end with the forest that is built. Read in preorder it gives back the rows
before the first that is above the least depth, each once. Their items have no titles, and those of
active pages are marked. Each row comes below the last row before it that is shallower, and at the
top when there is none. -/
theorem build_places (active : PageId → Bool) (minDepth : Nat) (rows : List Link) :
    loopBuild active minDepth rows = build active minDepth rows ∧
    (build active minDepth rows).links = rows.takeWhile (minDepth ≤ ·.depth) ∧
    (∀ item ∈ (build active minDepth rows).preorder,
      item.active = active item.link.nid ∧ item.title = none) ∧
    ∀ i l, (rows.takeWhile (minDepth ≤ ·.depth))[i]? = some l →
      ∃ up, (build active minDepth rows).parents[i]? = some up ∧
        LastAbove l.depth ((rows.takeWhile (minDepth ≤ ·.depth)).take i) up := by
  refine ⟨loopBuild_eq_build active minDepth rows, ?_, ?_, ?_⟩
  · rw [build, links_ofRows, rowsFrom_eq_takeWhile]
  · intro item hitem
    rw [build, preorder_ofRows, List.mem_map] at hitem
    obtain ⟨l, _, rfl⟩ := hitem
    exact ⟨rfl, rfl⟩
  · intro i l hl
    refine ⟨_, ?_, lastAbove_spec _ _⟩
    rw [build, parents_ofRows, rowsFrom_eq_takeWhile, getElem?_placesAfter, hl]
    rfl

/-- Rows that leave out levels, come back to levels that were left out and rise above the first,
before one that is above the least depth. -/
def unevenRows : List Link :=
  [3, 5, 4, 2, 3, 2, 1, 2].map fun d => { Link.root 1 0 with depth := d }

theorem build_places_unevenRows :
    (unevenRows.takeWhile (2 ≤ ·.depth))[4]? = some { Link.root 1 0 with depth := 3 } ∧
    (build (fun _ => false) 2 unevenRows).parents =
      [none, some 0, some 0, none, some 3, none] ∧
    ∃ up, up = some 3 ∧ (build (fun _ => false) 2 unevenRows).parents[4]? = some up ∧
      LastAbove 3 ((unevenRows.takeWhile (2 ≤ ·.depth)).take 4) up := by
  have hrow : (unevenRows.takeWhile (2 ≤ ·.depth))[4]? =
      some { Link.root 1 0 with depth := 3 } := by decide
  have hparents : (build (fun _ => false) 2 unevenRows).parents =
      [none, some 0, some 0, none, some 3, none] := by decide
  obtain ⟨_, _, _, hplaces⟩ := build_places (fun _ => false) 2 unevenRows
  obtain ⟨up, hup, hlast⟩ := hplaces 4 _ hrow
  refine ⟨hrow, hparents, up, ?_, hup, hlast⟩
  rw [hparents] at hup
  cases hup
  rfl

end BookForest
end Outline
