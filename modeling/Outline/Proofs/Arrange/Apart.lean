import Outline.Proofs.Arrange.Books
import Outline.Proofs.Arrange.Verdict

/-!
Moves in different books.

A move reads and writes the book of the page and that of the parent, and a book that it starts is of
a page that was stored in one of these. So two moves whose books have nothing in common make the same
of the table, whichever is made first.
-/
namespace Outline
set_option autoImplicit false

/-- The books of a page and of its new parent, as far as these are stored. -/
def Table.booksOf (t : Table) (nid pid : PageId) : List PageId :=
  ([nid, pid].filterMap t.stored?).map Link.bid

namespace Arrange

variable {t t' u u' : Table} {old moved k l : Link} {nid pid x b : PageId} {flag : Bool}
  {weight : Option Int32} {result : Except OutlineFault (Link × List PageId)}

theorem mem_booksOf :
    b ∈ t.booksOf nid pid ↔ ∃ y ∈ [nid, pid], ∃ l, t.stored? y = some l ∧ l.bid = b := by
  simp only [Table.booksOf, List.mem_map, List.mem_filterMap]
  constructor
  · rintro ⟨l, ⟨y, hy, hl⟩, rfl⟩
    exact ⟨y, hy, l, hl, rfl⟩
  · rintro ⟨y, hy, l, hl, rfl⟩
    exact ⟨l, ⟨y, hy, hl⟩, rfl⟩

theorem MoveEnds.whole (he : MoveEnds t nid pid result t') (h : t.Whole) : t'.Whole := by
  cases he with
  | refused refusal => exact h
  | weighed weight stored stays =>
    have hs := h.sound.stored?_nid stored
    exact ⟨h.sound.put ((h.sound.of_stored? stored).1.withWeight weight),
      h.linked.weigh h.sound hs weight, h.closed.weigh h.sound hs weight⟩
  | rehung stored leaves hr =>
    have hs := h.sound.stored?_nid stored
    exact ⟨hr.sound, hr.linkedBut h.sound hs h.linked, hr.closed h.sound hs h.closed⟩

/-- No page is stored anew by a move. -/
theorem MoveEnds.stored?_eq_none (he : MoveEnds t nid pid result t') (h : t.Sound)
    (hx : t.stored? x = none) : t'.stored? x = none := by
  cases he with
  | refused refusal => exact hx
  | weighed weight stored stays =>
    rw [Table.stored?_weigh h (h.stored?_nid stored), hx]
    rfl
  | rehung stored leaves hr =>
    obtain ⟨flag, _, hstored⟩ := hr.stored
    rw [hstored, hx]
    rfl

/-- A book that a page starts by its move was the book of that page, if it had pages before. -/
theorem bid_moved (hr : Rehung t old pid moved t') (h : t.Whole)
    (hs : t.stored? old.nid = some old) (hk : t.stored? k.nid = some k)
    (hb : k.bid ∉ t.booksOf old.nid pid) : moved.bid ≠ k.bid := by
  have ho := (h.sound.of_stored? hs).1
  have hd := hr.destined h.sound ho
  intro heq
  apply hb
  rcases hd.path with ⟨_, hpath⟩ | ⟨parent, hparent, _, hpath⟩
  · have hbid : k.bid = old.nid := by
      rw [← heq, ← hd.sound.head_path, hpath]
      rfl
    have hmem : old.nid ∈ k.path := by
      rw [← hbid]
      exact (h.sound.of_stored? hk).1.bid_starts.subset (List.mem_singleton_self _)
    obtain ⟨p, hp, hpb⟩ := h.on_path hk old.nid hmem
    exact mem_booksOf.2 ⟨old.nid, by simp, p, hp, hpb⟩
  · refine mem_booksOf.2 ⟨pid, by simp, parent, hparent, ?_⟩
    rw [← heq]
    exact (hd.sound.bid_of_path (h.sound.of_stored? hparent).1 hpath).symm

/-- A move leaves every book alone that has pages and is neither the page's nor the parent's. -/
theorem MoveEnds.agreeOn (he : MoveEnds t nid pid result t') (h : t.Whole)
    (hk : t.stored? k.nid = some k) (hb : k.bid ∉ t.booksOf nid pid) : t.AgreeOn k.bid t' := by
  have hown : ∀ old, t.stored? nid = some old → old.bid ≠ k.bid := by
    intro old hs heq
    exact hb (mem_booksOf.2 ⟨nid, by simp, old, hs, heq⟩)
  cases he with
  | refused refusal => exact .refl _ t
  | weighed weight stored stays =>
    exact Table.agreeOn_weigh h.sound (h.sound.stored?_nid stored) weight (hown _ stored)
  | rehung stored leaves hr =>
    obtain ⟨_, rfl⟩ := h.sound.of_stored? stored
    exact hr.agreeOn h.sound stored h.linked
      (not_mem_touchedBy.2 ⟨hown _ stored, bid_moved hr h stored hk hb⟩)

theorem MoveEnds.stored?_eq (he : MoveEnds t nid pid result t') (h : t.Whole)
    (hx : ∀ k, t.stored? x = some k → k.bid ∉ t.booksOf nid pid) :
    t'.stored? x = t.stored? x := by
  cases hk : t.stored? x with
  | none => exact he.stored?_eq_none h.sound hk
  | some k =>
    exact (he.agreeOn h (h.sound.stored?_nid hk) (hx k hk)).stored?_eq h.sound hk rfl

/-- Whether two tables are alike to a move: the page and the parent have the same links in both, and
the books of these are the same. -/
structure AlikeFor (nid pid : PageId) (t u : Table) : Prop where
  page : u.stored? nid = t.stored? nid
  parent : u.stored? pid = t.stored? pid
  books : ∀ b ∈ t.booksOf nid pid, t.AgreeOn b u

theorem AlikeFor.agreeOn (ha : AlikeFor nid pid t u) (hs : t.stored? nid = some old) :
    t.AgreeOn old.bid u :=
  ha.books old.bid (mem_booksOf.2 ⟨nid, by simp, old, hs, rfl⟩)

theorem AlikeFor.booksOf_eq (ha : AlikeFor nid pid t u) :
    u.booksOf nid pid = t.booksOf nid pid := by
  simp only [Table.booksOf, List.filterMap_cons, List.filterMap_nil, ha.page, ha.parent]

theorem AlikeFor.verdict_eq (ha : AlikeFor nid pid t u) (h : t.Sound) (hu : u.Sound)
    (weight : Option Int32) : verdict u nid pid weight = verdict t nid pid weight := by
  have hpath : pathAbove u nid pid = pathAbove t nid pid := by
    rw [pathAbove, pathAbove, ha.parent]
  rw [verdict, verdict, ha.page, hpath]
  cases hs : t.stored? nid with
  | none => rfl
  | some old => simp only [(ha.agreeOn hs).deepest_eq h hu]

/-- The parent that is left is marked when another page of the book names it. -/
theorem LeavesFlag.iff (hflag : LeavesFlag t old moved flag) (h : t.Whole)
    (hs : t.stored? old.nid = some old) (hpid : old.pid ≠ 0) :
    flag = true ↔
      ∃ k, t.stored? k.nid = some k ∧ k.bid = old.bid ∧ k.pid = old.pid ∧ k.nid ≠ old.nid := by
  obtain ⟨p, hp⟩ := Option.isSome_iff_exists.1 (h.closed old hs hpid)
  have hps := (h.sound.of_stored? hp).1
  rw [show flag = true ↔ _ from hflag]
  constructor
  · rintro ⟨k, hk, _, hkp, hko⟩
    have hplace := h.linked.place k p hk (hkp ▸ hp)
    have hold := h.linked.place old p hs hp
    refine ⟨k, hk, ?_, hkp, hko⟩
    rw [(h.sound.of_stored? hk).1.bid_of_path hps hplace,
      (h.sound.of_stored? hs).1.bid_of_path hps hold]
  · rintro ⟨k, hk, _, hkp, hko⟩
    exact ⟨k, hk, bid_sibling h.sound hs h.linked hk hp hkp hko, hkp, hko⟩

/-- The same move of tables that agree on the book of the page does the same to a link that both
store. -/
theorem Rehung.stored?_congr (hr : Rehung t old pid moved t') (hr' : Rehung u old pid moved u')
    (h : t.Whole) (hu : u.Whole) (hs : t.stored? old.nid = some old) (ha : t.AgreeOn old.bid u)
    (hx : u.stored? x = t.stored? x) : u'.stored? x = t'.stored? x := by
  have ho := (h.sound.of_stored? hs).1
  have hd := hr.destined h.sound ho
  obtain ⟨flag, hflag, hstored⟩ := hr.stored
  obtain ⟨flag', hflag', hstored'⟩ := hr'.stored
  rw [hstored, hstored', hx]
  cases hk : t.stored? x with
  | none => rfl
  | some k =>
    have hks := (h.sound.of_stored? hk).1
    rw [Option.map_some, Option.map_some, Option.some.injEq]
    by_cases hpid : old.pid = 0
    · have hnid : (k.moveOver old moved).nid ≠ old.pid := by
        rw [Link.nid_moveOver ho hd.sound hks hd.page, hpid]
        exact hks.nid_ne_zero
      rw [Link.carried, Link.carried, Link.flagged_of_ne hnid, Link.flagged_of_ne hnid]
    · have hs' : u.stored? old.nid = some old := (ha old rfl).1 hs
      have hsame : flag = flag' := by
        rw [Bool.eq_iff_iff, hflag.iff h hs hpid, hflag'.iff hu hs' hpid]
        constructor
        · rintro ⟨c, hc, hcb, hrest⟩
          exact ⟨c, (ha c hcb).1 hc, hcb, hrest⟩
        · rintro ⟨c, hc, hcb, hrest⟩
          exact ⟨c, (ha c hcb).2 hc, hcb, hrest⟩
      rw [hsame]

/-- A move with the same result does the same to a link that both of two tables store, if they are
alike to the move. -/
theorem MoveEnds.stored?_congr (he : MoveEnds t nid pid result t')
    (he' : MoveEnds u nid pid result u') (h : t.Whole) (hu : u.Whole)
    (ha : AlikeFor nid pid t u) (hx : u.stored? x = t.stored? x) : u'.stored? x = t'.stored? x := by
  generalize hresult : result = result' at he'
  cases he with
  | refused refusal =>
    cases he' with
    | refused => exact hx
    | weighed => cases hresult
    | rehung => cases hresult
  | @weighed old weight stored stays =>
    cases he' with
    | refused => cases hresult
    | weighed weight' stored' stays' =>
      rw [ha.page, stored] at stored'
      cases stored'
      have hweight : weight = weight' := by simpa using hresult
      rw [Table.stored?_weigh h.sound (h.sound.stored?_nid stored),
        Table.stored?_weigh hu.sound (hu.sound.stored?_nid (ha.page.trans stored)), hx, hweight]
    | rehung stored' leaves' hr' =>
      rw [ha.page, stored] at stored'
      cases stored'
      exact absurd stays leaves'
  | @rehung old moved _ stored leaves hr =>
    cases he' with
    | refused => cases hresult
    | weighed weight' stored' stays' =>
      rw [ha.page, stored] at stored'
      cases stored'
      exact absurd stays' leaves
    | rehung stored' leaves' hr' =>
      rw [ha.page, stored] at stored'
      cases stored'
      cases hresult
      exact hr.stored?_congr hr' h hu (h.sound.stored?_nid stored) (ha.agreeOn stored) hx

section Apart

variable {n₁ p₁ n₂ p₂ : PageId} {t₁ t₂ t₁₂ t₂₁ : Table}
  {result₁ result₂ : Except OutlineFault (Link × List PageId)}

/-- To a move in other books, a table is after a move as it was before. -/
theorem MoveEnds.alikeFor (he : MoveEnds t n₁ p₁ result t₁) (h : t.Whole)
    (hapart : (t.booksOf n₁ p₁).Disjoint (t.booksOf n₂ p₂)) : AlikeFor n₂ p₂ t t₁ := by
  have hstored : ∀ x ∈ [n₂, p₂], t₁.stored? x = t.stored? x := by
    intro x hx
    refine he.stored?_eq h fun k hk hmem => ?_
    exact hapart hmem (mem_booksOf.2 ⟨x, hx, k, hk, rfl⟩)
  refine ⟨hstored n₂ (by simp), hstored p₂ (by simp), fun b hb => ?_⟩
  obtain ⟨x, _, k, hk, rfl⟩ := mem_booksOf.1 hb
  exact he.agreeOn h (h.sound.stored?_nid hk) fun hmem => hapart hmem hb

/-- What one move does not concern is left as the other one leaves it, whichever is made first. -/
theorem MoveEnds.stored?_comm (he₁ : MoveEnds t n₁ p₁ result₁ t₁)
    (he₂ : MoveEnds t n₂ p₂ result₂ t₂) (he₁₂ : MoveEnds t₁ n₂ p₂ result₂ t₁₂)
    (he₂₁ : MoveEnds t₂ n₁ p₁ result₁ t₂₁) (h : t.Whole)
    (hapart : (t.booksOf n₁ p₁).Disjoint (t.booksOf n₂ p₂))
    (hk : ∀ k, t.stored? x = some k → k.bid ∉ t.booksOf n₁ p₁) :
    t₁₂.stored? x = t₂₁.stored? x := by
  have hkept : t₁.stored? x = t.stored? x := he₁.stored?_eq h hk
  have hsame : t₁₂.stored? x = t₂.stored? x :=
    he₂.stored?_congr he₁₂ h (he₁.whole h) (he₁.alikeFor h hapart) hkept
  have halike := he₂.alikeFor h (List.disjoint_symm hapart)
  rw [hsame, he₂₁.stored?_eq (he₂.whole h)]
  rw [halike.booksOf_eq]
  -- what the second move has put into a book of the first was in it before, as it is
  intro l hl hmem
  obtain ⟨_, rfl⟩ := (he₂.whole h).sound.of_stored? hl
  exact hk l ((halike.books l.bid hmem l rfl).2 hl) hmem

/-- Two moves whose books have nothing in common leave the same table, whichever is made first. -/
theorem MoveEnds.comm (he₁ : MoveEnds t n₁ p₁ result₁ t₁) (he₂ : MoveEnds t n₂ p₂ result₂ t₂)
    (he₁₂ : MoveEnds t₁ n₂ p₂ result₂ t₁₂) (he₂₁ : MoveEnds t₂ n₁ p₁ result₁ t₂₁) (h : t.Whole)
    (hapart : (t.booksOf n₁ p₁).Disjoint (t.booksOf n₂ p₂)) : t₁₂ = t₂₁ := by
  have hsound₁₂ := (he₁₂.whole (he₁.whole h)).sound
  have hsound₂₁ := (he₂₁.whole (he₂.whole h)).sound
  refine hsound₁₂.ext hsound₂₁ fun x => ?_
  by_cases hb : ∃ k, t.stored? x = some k ∧ k.bid ∈ t.booksOf n₁ p₁
  · obtain ⟨k, hk, hmem⟩ := hb
    refine (he₂.stored?_comm he₁ he₂₁ he₁₂ h (List.disjoint_symm hapart) fun l hl => ?_).symm
    rw [hk] at hl
    cases hl
    exact hapart hmem
  · exact he₁.stored?_comm he₂ he₁₂ he₂₁ h hapart fun k hk hmem => hb ⟨k, hk, hmem⟩

end Apart

end Arrange
end Outline
