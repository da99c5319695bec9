import Outline.Proofs.Store.Reading

/-!
The books of a table: the ids that stored links have for their books, each once, and the links of
the pages of these ids.
-/
namespace Outline
set_option autoImplicit false

section Repetitions

variable {α β : Type} [DecidableEq α] [DecidableEq β]

theorem eraseReps_loop_map {f : α → β} (hf : Function.Injective f) (as : List α) :
    ∀ (a : α) (done : List α),
      List.eraseRepsBy.loop (· == ·) (f a) (as.map f) (done.map f) =
        (List.eraseRepsBy.loop (· == ·) a as done).map f := by
  induction as with
  | nil => intro a done; simp [List.eraseRepsBy.loop]
  | cons b as ih =>
    intro a done
    rw [List.map_cons, List.eraseRepsBy.loop, List.eraseRepsBy.loop]
    by_cases hab : a = b
    · simp only [hab, beq_self_eq_true, ih]
    · rw [beq_eq_false_iff_ne.2 hab, beq_eq_false_iff_ne.2 (mt (@hf a b) hab)]
      exact ih b (a :: done)

theorem eraseReps_map {f : α → β} (hf : Function.Injective f) (as : List α) :
    (as.map f).eraseReps = as.eraseReps.map f := by
  cases as with
  | nil => rfl
  | cons a as => exact eraseReps_loop_map hf as a []

theorem pairwise_eraseReps_loop (ids : List PageId) :
    ∀ (id : PageId) (done : List PageId), (id :: ids).Pairwise (· ≤ ·) →
      (id :: done).Pairwise (fun a b => b < a) →
      (List.eraseRepsBy.loop (· == ·) id ids done).Pairwise (· < ·) := by
  induction ids with
  | nil =>
    intro id done _ hdone
    rw [List.eraseRepsBy.loop, List.pairwise_reverse]
    exact hdone
  | cons next ids ih =>
    intro id done hids hdone
    obtain ⟨hle, hnext⟩ := List.pairwise_cons.1 hids
    rw [List.eraseRepsBy.loop]
    by_cases hid : id = next
    · rw [beq_iff_eq.2 hid]
      exact ih id done (hids.sublist (.cons_cons _ (List.sublist_cons_self _ _))) hdone
    · rw [beq_eq_false_iff_ne.2 hid]
      have hlt : id < next := Int64.lt_of_le_of_ne (hle next List.mem_cons_self) hid
      refine ih next (id :: done) hnext (List.pairwise_cons.2 ⟨?_, hdone⟩)
      intro x hx
      rcases List.mem_cons.1 hx with rfl | hx
      · exact hlt
      · exact Int64.lt_trans ((List.pairwise_cons.1 hdone).1 x hx) hlt

theorem pairwise_eraseReps {ids : List PageId} (h : ids.Pairwise (· ≤ ·)) :
    ids.eraseReps.Pairwise (· < ·) := by
  cases ids with
  | nil => exact .nil
  | cons id ids => exact pairwise_eraseReps_loop ids id [] h (List.pairwise_singleton _ _)

end Repetitions

namespace Table

variable {t : Table}

/-- The links of some pages, in which each of them is found that is stored. -/
theorem links_eq (h : t.Sound) (nids : List PageId) :
    ∃ ls, t.links nids = .ok ls ∧ ∀ nid ∈ nids, ls.find? (·.nid == nid) = t.stored? nid := by
  have hrows : ∀ r ∈ t.rows.filter fun r => nids.contains r.nid, r ∈ t.rows :=
    fun r hr => List.mem_of_mem_filter hr
  refine ⟨_, Row.toLinks_eq fun r hr => h r (hrows r hr), fun nid hnid => ?_⟩
  cases hfound : List.find? (fun l : Link => l.nid == nid)
      ((t.rows.filter fun r => nids.contains r.nid).filterMap Row.link?) with
  | none =>
    rw [List.find?_eq_none] at hfound
    refine (Option.eq_none_iff_forall_ne_some.2 fun l hl => ?_).symm
    obtain ⟨_, rfl⟩ := h.of_stored? hl
    have hmem : Row.ofLink l ∈ t.rows.filter fun r => nids.contains r.nid :=
      List.mem_filter.2 ⟨h.mem_rows_iff.2 ⟨l, hl, rfl⟩, List.contains_iff_mem.2 hnid⟩
    exact hfound l ((mem_links h hrows).2 ⟨hl, hmem⟩) (beq_self_eq_true _)
  | some l =>
    have hl := ((mem_links h hrows).1 (List.mem_of_find?_eq_some hfound)).1
    have hnid := List.find?_some hfound
    rw [← beq_iff_eq.1 hnid, hl]

theorem links_of_le {nids : List PageId} {limit : Option Nat}
    (h : ∀ most ∈ limit, nids.length ≤ most) : t.links nids limit = t.links nids := by
  cases limit with
  | none => rfl
  | some most => exact if_neg (by simpa using h most rfl)

theorem links_of_lt {nids : List PageId} {most : Nat} (h : most < nids.length) :
    t.links nids (some most) = .error (.engine .tooManyVariables) := if_pos (decide_eq_true h)

/-- The books that stored links belong to, in ascending order. -/
def usedBooks (t : Table) : List PageId :=
  (((t.rows.filterMap Row.link?).map Link.bid).mergeSort fun a b => decide (a ≤ b)).eraseReps

theorem mem_usedBooks (h : t.Sound) {b : PageId} :
    b ∈ t.usedBooks ↔ ∃ k, t.stored? k.nid = some k ∧ k.bid = b := by
  rw [usedBooks, mem_eraseReps, List.mem_mergeSort, List.mem_map]
  constructor
  · rintro ⟨k, hk, rfl⟩
    exact ⟨k, ((mem_links h fun _ hr => hr).1 hk).1, rfl⟩
  · rintro ⟨k, hk, rfl⟩
    exact ⟨k, (mem_links h fun _ hr => hr).2 ⟨hk, h.mem_rows_iff.2 ⟨k, hk, rfl⟩⟩, rfl⟩

theorem nodup_usedBooks (t : Table) : t.usedBooks.Nodup := by
  have hsorted : (((t.rows.filterMap Row.link?).map Link.bid).mergeSort
      fun a b => decide (a ≤ b)).Pairwise fun a b => decide (a ≤ b) = true := by
    apply List.pairwise_mergeSort
    · intro a b c hab hbc
      exact decide_eq_true (Int64.le_trans (of_decide_eq_true hab) (of_decide_eq_true hbc))
    · intro a b
      simpa using Int64.le_total a b
  exact (pairwise_eraseReps (hsorted.imp of_decide_eq_true)).imp Int64.ne_of_lt

theorem mapM_readInt (ids : List PageId) :
    (ids.map Cell.int).mapM (Row.readInt 0 "bid") = .ok ids := by
  induction ids with
  | nil => rfl
  | cons id ids ih =>
    rw [List.map_cons, List.mapM_cons, ih]
    rfl

theorem bookIds_eq (h : t.Sound) : t.bookIds = .ok t.usedBooks := by
  have hcells : t.rows.map Row.bid = ((t.rows.filterMap Row.link?).map Link.bid).map .int := by
    conv_lhs => rw [← map_ofLink_links h t.rows fun _ hr => hr]
    rw [List.map_map, List.map_map]
    rfl
  have hsorted : (t.rows.map Row.bid).mergeSort Cell.le =
      (((t.rows.filterMap Row.link?).map Link.bid).mergeSort
        fun a b => decide (a ≤ b)).map .int := by
    rw [hcells]
    refine (List.map_mergeSort ?_).symm
    intro a _ b _
    rw [Bool.eq_iff_iff, Cell.le_int_iff, decide_eq_true_iff]
  rw [bookIds, hsorted, eraseReps_map fun _ _ => Cell.int.inj, mapM_readInt, usedBooks]

end Table

end Outline
