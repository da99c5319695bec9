import Outline.Proofs.Forest.Built
import Outline.Proofs.Manager.Books
import Outline.Proofs.Manager.Reads

/-!
The forest of a book around a page in focus.

A page in focus that lies in another book opens nothing: only the top of the book is shown, and none
of it is marked. So the forest depends on the links of its book alone, even where the page in focus
is moved or removed elsewhere.
-/
namespace Outline
set_option autoImplicit false

namespace Query

variable {q : Query} {ids ids' : List PageId} {l : Link}

/-- Where the children of some parents are wanted, a link is among them when it names one. -/
theorem parents_under (hne : ids ≠ []) :
    ((q.under ids).parents.isEmpty ||
      (q.under ids).parents.any fun pid => (Row.ofLink l).pid == .int pid) = true ↔
        l.pid ∈ ids := by
  obtain ⟨id, hid⟩ := List.exists_mem_of_ne_nil ids hne
  have hsome : (ids.mergeSort (· ≤ ·)).eraseReps ≠ [] := by
    intro heq
    have hmem := Table.mem_eraseReps.2 (List.mem_mergeSort.2 hid : id ∈ ids.mergeSort (· ≤ ·))
    rw [heq] at hmem
    cases hmem
  simp [under, List.isEmpty_iff, hsome, Table.mem_eraseReps, List.mem_mergeSort, Row.ofLink]

/-- Of the parents whose children are wanted, only those count that a link names. -/
theorem wants_under_congr (hne : ids ≠ []) (hne' : ids' ≠ []) (h : l.pid ∈ ids ↔ l.pid ∈ ids') :
    (q.under ids).wants (.ofLink l) = (q.under ids').wants (.ofLink l) := by
  have hsame := Bool.eq_iff_iff.2
    (((parents_under (q := q) hne).trans h).trans (parents_under (q := q) hne').symm)
  unfold wants
  rw [hsame]
  rfl

end Query

namespace Manager

variable {t t' : Table} {bid n : PageId} {l k : Link} {focus : Option Link} {d : Option Nat}

/-- The forest of a book around a page in another one. -/
def aside (t : Table) (bid : PageId) (d : Option Nat) : BookForest :=
  BookForest.build (fun _ => false) 1 (t.chosen (((Query.book bid).downTo d).under [0]))

/-- The forest of a book around a page in focus, zero standing for none. -/
def around (t : Table) (bid n : PageId) (d : Option Nat) : BookForest :=
  if n = 0 then (Wanted.book bid none d).fresh t
  else match (t.stored? n).filter (·.bid = bid) with
    | some l => (Wanted.book bid (some l) d).fresh t
    | none => aside t bid d

/-- The forest around a page depends on the links of the book alone. -/
theorem around_congr (ha : t.AgreeOn bid t') (h : t.Sound) (h' : t'.Sound) :
    around t bid n d = around t' bid n d := by
  have hbook : ∀ focus, (Wanted.book bid focus d).fresh t = (Wanted.book bid focus d).fresh t' := by
    intro focus
    have hq : (bookQuery bid focus d).bid = bid := by cases focus <;> rfl
    rw [Wanted.fresh, Wanted.fresh, ha.chosen_eq h h' hq]
  have haside : aside t bid d = aside t' bid d := by
    rw [aside, aside, ha.chosen_eq h h' rfl]
  have hfocus : (t.stored? n).filter (·.bid = bid) = (t'.stored? n).filter (·.bid = bid) := by
    ext l
    rw [Option.filter_eq_some_iff, Option.filter_eq_some_iff, decide_eq_true_iff]
    constructor
    · rintro ⟨hl, hb⟩
      exact ⟨ha.stored?_eq h hl hb, hb⟩
    · rintro ⟨hl, hb⟩
      exact ⟨ha.symm.stored?_eq h' hl hb, hb⟩
  rw [around, around, hfocus, hbook none, haside]
  split
  · rfl
  · split
    · exact hbook _
    · rfl

theorem fresh_below_congr (ha : t.AgreeOn l.bid t') (h : t.Sound) (h' : t'.Sound) :
    (Wanted.below l).fresh t = (Wanted.below l).fresh t' := by
  rw [Wanted.fresh, Wanted.fresh, ha.chosen_eq h h' rfl]

/-- The pages around a page of another book are no parents in a book. -/
theorem pid_mem_trail_iff (h : t.Whole) (hl : t.stored? l.nid = some l)
    (hk : t.stored? k.nid = some k) (hbid : k.bid ≠ l.bid) : k.pid ∈ l.trail ↔ k.pid = 0 := by
  constructor
  · intro hmem
    rcases (h.sound.of_stored? hl).1.mem_trail hmem with hz | hpath
    · exact hz
    · obtain ⟨p, hp, hpb⟩ := h.on_path hl _ hpath
      have hplace := h.linked.place k p hk hp
      have hkp := (h.sound.of_stored? hk).1.bid_of_path (h.sound.of_stored? hp).1 hplace
      exact absurd (hkp.trans hpb) hbid
  · intro hz
    rw [hz]
    exact List.mem_cons_self

/-- The pages around a page of another book are no pages of a book. -/
theorem not_mem_activePages (h : t.Whole) (hl : t.stored? l.nid = some l)
    (hk : t.stored? k.nid = some k) (hbid : k.bid ≠ l.bid) : k.nid ∉ activePages (some l) := by
  have hls := (h.sound.of_stored? hl).1
  have hpath : k.nid ∉ l.path := by
    intro hmem
    obtain ⟨p, hp, hpb⟩ := h.on_path hl _ hmem
    rw [hk] at hp
    cases hp
    exact hbid hpb
  intro hmem
  rcases List.mem_cons.1 hmem with heq | htrail
  · rw [heq] at hpath
    exact hpath hls.nid_mem_path
  · rcases hls.mem_trail htrail with hz | hmem
    · exact (h.sound.of_stored? hk).1.nid_ne_zero hz
    · exact hpath hmem

/-- Around a page of another book, a book shows its top and marks nothing. -/
theorem fresh_of_other (h : t.Whole) (hl : t.stored? l.nid = some l) (hbid : l.bid ≠ bid) :
    (Wanted.book bid (some l) d).fresh t = aside t bid d := by
  have hrows : t.chosen (bookQuery bid (some l) d) =
      t.chosen (((Query.book bid).downTo d).under [0]) := by
    apply Table.chosen_congr h.sound
    intro k hk
    by_cases hkb : k.bid = bid
    · refine Query.wants_under_congr (List.cons_ne_nil _ _) (List.cons_ne_nil _ _) ?_
      rw [List.mem_singleton]
      exact pid_mem_trail_iff h hl hk (by rw [hkb]; exact Ne.symm hbid)
    · rw [Bool.eq_iff_iff]
      exact ⟨fun hw => absurd (Query.bid_of_wants hw) hkb,
        fun hw => absurd (Query.bid_of_wants hw) hkb⟩
  rw [Wanted.fresh, aside, hrows]
  apply BookForest.build_congr
  intro k hk
  obtain ⟨hks, hw⟩ := (Table.mem_chosen h.sound).1 hk
  have hkb : k.bid = bid := Query.bid_of_wants hw
  have hnot := not_mem_activePages h hl hks (by rw [hkb]; exact Ne.symm hbid)
  simpa using hnot

/-- The forest that is made anew is the forest around the page in focus. -/
theorem fresh_eq_around (h : t.Whole) (hfocus : ∀ l ∈ focus, t.stored? l.nid = some l) :
    (Wanted.book bid focus d).fresh t = around t bid ((focus.map Link.nid).getD 0) d := by
  cases focus with
  | none => rfl
  | some l =>
    have hl := hfocus l rfl
    rw [Option.map_some, Option.getD_some, around, if_neg (h.sound.of_stored? hl).1.nid_ne_zero, hl]
    by_cases hbid : l.bid = bid
    · rw [Option.filter_some_pos (by simpa using hbid)]
    · rw [Option.filter_some_neg (by simpa using hbid)]
      exact fresh_of_other h hl hbid

end Manager

end Outline
