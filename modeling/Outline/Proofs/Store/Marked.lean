import Outline.Proofs.Store.Consistent

/-!
The marks of pages that have children.

A mark is true when some stored page names the marked one as its parent. It does not matter where
the two lie, so marks stay true where places do not: among pages that were left behind, and among
pages whose ids were used again.
-/
namespace Outline
set_option autoImplicit false

theorem Row.flag_eq_true_iff {b : Bool} : Row.flag b = Row.flag true ↔ b = true := by
  cases b <;> decide

/-- Whether a row is marked as having children exactly when a row names its page as the parent. -/
def Table.Marked (t : Table) : Prop :=
  ∀ r ∈ t.rows, r.hasChildren = Row.flag true ↔ ∃ c ∈ t.rows, c.pid = .int r.nid

instance (t : Table) : Decidable t.Marked := inferInstanceAs (Decidable (∀ r ∈ t.rows, _))

/-- Every page but `x` that is marked as having children has one. -/
def Table.MarksTrueBut (x : PageId) (t : Table) : Prop :=
  ∀ p, t.stored? p.nid = some p → p.nid ≠ x → p.hasChildren = true →
    ∃ k, t.stored? k.nid = some k ∧ k.pid = p.nid

/-- Every page that is marked as having children has one. Zero is no page, so none is left out. -/
abbrev Table.MarksTrue (t : Table) : Prop := t.MarksTrueBut 0

namespace Table

variable {t t' : Table} {l old : Link} {x : PageId}

theorem marked_iff (h : t.Sound) :
    t.Marked ↔ ∀ p, t.stored? p.nid = some p →
      (p.hasChildren = true ↔ ∃ k, t.stored? k.nid = some k ∧ k.pid = p.nid) := by
  have hrow : ∀ p : Link, ((Row.ofLink p).hasChildren = Row.flag true ↔
      ∃ c ∈ t.rows, c.pid = .int (Row.ofLink p).nid) ↔
      (p.hasChildren = true ↔ ∃ k, t.stored? k.nid = some k ∧ k.pid = p.nid) := by
    intro p
    rw [← h.named_iff]
    exact iff_congr Row.flag_eq_true_iff Iff.rfl
  constructor
  · intro hmarked p hp
    exact (hrow p).1 (hmarked _ (h.row_mem hp).1)
  · intro hmarked r hr
    obtain ⟨p, hp, rfl⟩ := h.mem_rows_iff.1 hr
    exact (hrow p).2 (hmarked p hp)

theorem Linked.marked (hlink : t.Linked) (h : t.Sound) : t.Marked :=
  (marked_iff h).2 fun p hp => hlink.flag p hp (h.of_stored? hp).1.nid_ne_zero

theorem marksTrue_empty : Table.empty.MarksTrue := fun _ hp => nomatch hp

theorem MarksTrueBut.leave (hmarks : t.MarksTrue) (h : t.Sound) (x : PageId) :
    t.MarksTrueBut x :=
  fun p hp _ hmark => hmarks p hp (h.of_stored? hp).1.nid_ne_zero hmark

/-- A new page has no mark that could be wrong, and takes no child from another one. -/
theorem MarksTrueBut.put_new (hmarks : t.MarksTrueBut x) (hl : l.Sound)
    (hnew : t.stored? l.nid = none) (hflag : l.hasChildren = false) :
    (t.put (.ofLink l)).MarksTrueBut x := by
  intro p hp hpx hmark
  rw [stored?_put hl] at hp
  split at hp
  · cases hp
    rw [hflag] at hmark
    cases hmark
  · obtain ⟨k, hk, hkp⟩ := hmarks p hp hpx hmark
    exact ⟨k, by rw [stored?_put hl, if_neg (ne_of_stored? hk hnew), hk], hkp⟩

/-- A write that puts every stored link through a function keeps marks true when every mark that it
leaves or sets is. -/
theorem MarksTrueBut.of_map {f : Link → Link} (h : t.Sound)
    (hstored : ∀ y, t'.stored? y = (t.stored? y).map f)
    (hnid : ∀ k, t.stored? k.nid = some k → (f k).nid = k.nid)
    (hmark : ∀ p, t.stored? p.nid = some p → p.nid ≠ x → (f p).hasChildren = true →
      ∃ k, t.stored? k.nid = some k ∧ (f k).pid = p.nid) : t'.MarksTrueBut x := by
  intro p' hp' hpx hm
  rw [hstored, Option.map_eq_some_iff] at hp'
  obtain ⟨p, hp, rfl⟩ := hp'
  have hps := h.stored?_nid hp
  rw [hnid p hps] at hpx ⊢
  obtain ⟨k, hk, hkp⟩ := hmark p hps hpx hm
  exact ⟨f k, by rw [hnid k hk, hstored, hk, Option.map_some], hkp⟩

/-- The mark that was left out may be written when the page has a child, and may be taken away. -/
theorem MarksTrueBut.setHasChildren (hmarks : t.MarksTrueBut x) (h : t.Sound) {value : Bool}
    (hvalue : value = true → ∃ k, t.stored? k.nid = some k ∧ k.pid = x) :
    (t.setHasChildren x value).MarksTrue := by
  refine MarksTrueBut.of_map h (stored?_setHasChildren h x · value)
    (fun k _ => k.nid_flagged x value) ?_
  intro p hp _ hmark
  simp only [Link.pid_flagged]
  rw [Link.hasChildren_flagged] at hmark
  split at hmark
  · next hpx =>
    rw [hpx]
    exact hvalue hmark
  · next hpx => exact hmarks p hp hpx hmark

/-- Without a page, only the mark of its parent may be wrong. -/
theorem MarksTrueBut.erase (hmarks : t.MarksTrue) (h : t.Sound)
    (hs : t.stored? old.nid = some old) : (t.erase old.nid).MarksTrueBut old.pid := by
  intro p hp hpx hmark
  rw [stored?_erase] at hp
  split at hp
  · cases hp
  · obtain ⟨k, hk, hkp⟩ := hmarks p hp (h.of_stored? hp).1.nid_ne_zero hmark
    refine ⟨k, ?_, hkp⟩
    rw [stored?_erase, if_neg, hk]
    intro heq
    rw [heq, hs] at hk
    cases hk
    exact hpx hkp.symm

theorem MarksTrueBut.weigh (hmarks : t.MarksTrueBut x) (h : t.Sound)
    (hs : t.stored? old.nid = some old) (weight : Int32) :
    (t.put (.ofLink { old with weight := weight })).MarksTrueBut x := by
  refine MarksTrueBut.of_map h (stored?_weigh h hs weight) (fun k _ => k.nid_weighed _ _) ?_
  intro p hp hpx hmark
  simp only [Link.pid_weighed]
  rw [Link.hasChildren_weighed] at hmark
  exact hmarks p hp hpx hmark

end Table

end Outline
