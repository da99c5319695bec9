import Outline.Proofs.Forest.Preorder
import Outline.Proofs.Store.Books

/-!
The order in which a query finds links: that of their paths.

Rows are sorted by all nine cells of their chains. Page ids are positive, so the zeros that fill up
a chain come before all of them, and a page comes before the pages below it.
-/
namespace Outline
set_option autoImplicit false

section Chains

variable {as bs : List PageId}

theorem cellsLe_ints (as : List PageId) :
    ∀ bs : List PageId, cellsLe (as.map .int) (bs.map .int) = decide (as ≤ bs) := by
  induction as with
  | nil => intro bs; simp [cellsLe]
  | cons a as ih =>
    intro bs
    cases bs with
    | nil => simp [cellsLe]
    | cons b bs =>
      have hord : (Cell.int a).ordering (.int b) = compare a b := rfl
      rw [List.map_cons, List.map_cons, cellsLe, hord]
      cases hab : compare a b with
      | lt =>
        have hlt := Std.compare_eq_lt.1 hab
        simp [List.cons_le_cons_iff, hlt]
      | eq =>
        obtain rfl := Std.LawfulEqOrd.compare_eq_iff_eq.1 hab
        simp [List.cons_le_cons_iff, ih, Int64.lt_irrefl]
      | gt =>
        have hlt := Std.compare_eq_gt.1 hab
        have hne : ¬ a = b := fun heq => Int64.lt_irrefl (heq ▸ hlt)
        simp [List.cons_le_cons_iff, hne, Int64.not_lt.2 (Int64.le_of_lt hlt)]

/-- Zeros after page ids make no difference to their order. -/
theorem le_of_padded_le {j k : Nat} (hpos : ∀ id ∈ as, 0 < id)
    (h : as ++ List.replicate j 0 ≤ bs ++ List.replicate k 0) : as ≤ bs := by
  induction as generalizing bs with
  | nil => exact List.nil_le _
  | cons a as ih =>
    have ha := hpos a List.mem_cons_self
    cases bs with
    | nil =>
      cases k with
      | zero => exact absurd h (by simp)
      | succ k =>
        rw [List.nil_append, List.replicate_succ, List.cons_append, List.cons_le_cons_iff] at h
        rcases h with hlt | ⟨rfl, _⟩
        · exact absurd (Int64.lt_trans ha hlt) Int64.lt_irrefl
        · exact absurd ha Int64.lt_irrefl
    | cons b bs =>
      rw [List.cons_append, List.cons_append, List.cons_le_cons_iff] at h
      rw [List.cons_le_cons_iff]
      rcases h with hlt | ⟨rfl, hle⟩
      · exact .inl hlt
      · exact .inr ⟨rfl, ih (fun id hid => hpos id (List.mem_cons_of_mem _ hid)) hle⟩

end Chains

namespace Table

variable {t : Table}

/-- A query sorts the links that it wants by their chains. -/
theorem chosen_eq_mergeSort (h : t.Sound) (q : Query) :
    t.chosen q = ((t.rows.filter q.wants).filterMap Row.link?).mergeSort fun a b =>
      decide (a.chain.toList ≤ b.chain.toList) := by
  have hfilter : ∀ r ∈ t.rows.filter q.wants, r ∈ t.rows := fun r hr => List.mem_of_mem_filter hr
  have hwanted : t.wantedRows q = (((t.rows.filter q.wants).filterMap Row.link?).mergeSort
      fun a b => decide (a.chain.toList ≤ b.chain.toList)).map Row.ofLink := by
    rw [wantedRows]
    conv_lhs => rw [← map_ofLink_links h _ hfilter]
    refine (List.map_mergeSort ?_).symm
    intro a _ b _
    exact (cellsLe_ints _ _).symm
  have hlinks : ∀ l ∈ (t.rows.filter q.wants).filterMap Row.link?, (Row.ofLink l).link? = some l := by
    intro l hl
    obtain ⟨r, hr, hrl⟩ := List.mem_filterMap.1 hl
    obtain ⟨k, hk, rfl⟩ := h r (hfilter r hr)
    rw [Row.link?_ofLink hk.valid] at hrl
    cases hrl
    exact Row.link?_ofLink hk.valid
  rw [chosen, hwanted, List.filterMap_map]
  refine (List.filterMap_congr (g := some) ?_).trans (List.filterMap_some)
  intro l hl
  exact hlinks l (List.mem_mergeSort.1 hl)

/-- A query finds links in the order of their paths. -/
theorem pairwise_chosen (h : t.Sound) (q : Query) :
    (t.chosen q).Pairwise fun a b => a.path < b.path := by
  have hsorted : (t.chosen q).Pairwise fun a b => a.chain.toList ≤ b.chain.toList := by
    rw [chosen_eq_mergeSort h]
    refine (List.pairwise_mergeSort ?_ ?_ _).imp of_decide_eq_true
    · intro a b c hab hbc
      exact decide_eq_true (List.le_trans (of_decide_eq_true hab) (of_decide_eq_true hbc))
    · intro a b
      simpa using List.le_total a.chain.toList b.chain.toList
  have hdistinct := List.pairwise_map.1 (nodup_chosen h q)
  refine (hsorted.and hdistinct).imp_of_mem ?_
  rintro a b ha hb ⟨hle, hne⟩
  have has := sound_of_mem_chosen h ha
  have hbs := sound_of_mem_chosen h hb
  rw [has.toList_chain, hbs.toList_chain] at hle
  rcases List.le_iff_lt_or_eq.1 (le_of_padded_le has.positive hle) with hlt | heq
  · exact hlt
  · refine absurd ?_ hne
    rw [← has.getLast_path, ← hbs.getLast_path, heq]

end Table

end Outline
