import Outline.Proofs.Arrange.Relocated
import Outline.Proofs.Store.Seats

/-!
What moves and promotions do to seats: a move gives the page another one and leaves all others, and
of the pages that become roots each keeps its weight.

A move to another parent can always be taken back, since the way to the old parent is as it was and
no more lies below the page than before.
-/
namespace Outline
set_option autoImplicit false

namespace Link

variable {old moved l : Link} {flag : Bool}

@[simp] theorem weight_flagged (nid : PageId) (value : Bool) (l : Link) :
    (l.flagged nid value).weight = l.weight := by
  unfold flagged
  split <;> rfl

theorem weight_carried :
    (carried old moved flag l).weight = if l.nid = old.nid then moved.weight else l.weight := by
  simp only [carried, weight_flagged, moveOver]
  by_cases hself : l.nid = old.nid
  · rw [if_pos hself, if_pos hself]
  · rw [if_neg hself, if_neg hself]
    split <;> rfl

end Link

namespace Arrange

variable {t t' : Table} {old moved p : Link} {nid pid x gone : PageId} {weight : Option Int32}
  {cs : List Link} {path touched : List PageId}

/-- A page that is moved has a new seat, and no other page has one. -/
theorem Rehung.seat?_eq (hr : Rehung t old pid moved t') (h : t.Sound)
    (hs : t.stored? old.nid = some old) (x : PageId) :
    t'.seat? x = if x = old.nid then some (pid, moved.weight) else t.seat? x := by
  have hd := hr.destined h (h.of_stored? hs).1
  obtain ⟨flag, _, hstored⟩ := hr.stored
  cases hk : t.stored? x with
  | none =>
    have hne : x ≠ old.nid := by
      intro heq
      rw [heq, hs] at hk
      cases hk
    rw [if_neg hne, Table.seat?, Table.seat?, hstored, hk]
    rfl
  | some k =>
    obtain ⟨_, rfl⟩ := h.of_stored? hk
    have hk' : t'.stored? k.nid = some (Link.carried old moved flag k) := by
      rw [hstored, hk, Option.map_some]
    rw [Table.seat?_of_stored? hk', Table.seat?_of_stored? hk, hd.pid_carried h hs hk,
      Link.weight_carried]
    by_cases hself : k.nid = old.nid
    · rw [if_pos hself, if_pos hself, if_pos hself]
    · rw [if_neg hself, if_neg hself, if_neg hself]

/-- A move that is made seats the page under the parent with the weight of its new link, and leaves
all other seats. -/
theorem MoveEnds.seat?_eq (he : MoveEnds t nid pid (.ok (moved, touched)) t') (h : t.Sound)
    (x : PageId) : t'.seat? x = if x = nid then some (pid, moved.weight) else t.seat? x := by
  cases he with
  | @weighed old weight stored stays =>
    obtain ⟨ho, rfl⟩ := h.of_stored? stored
    simp only [Table.seat?, Table.stored?_put (ho.withWeight weight), stays]
    by_cases hself : x = old.nid
    · rw [if_pos hself, if_pos hself]
      rfl
    · rw [if_neg hself, if_neg hself]
  | rehung stored leaves hr =>
    obtain ⟨_, rfl⟩ := h.of_stored? stored
    exact hr.seat?_eq h stored x

/-- The link that is told of a page that was moved is the one that is stored. -/
theorem MoveEnds.stored?_moved (he : MoveEnds t nid pid (.ok (moved, touched)) t') (h : t.Sound) :
    t'.stored? nid = some moved := by
  cases he with
  | @weighed old weight stored stays =>
    obtain ⟨ho, rfl⟩ := h.of_stored? stored
    rw [Table.stored?_put (ho.withWeight weight), if_pos rfl]
  | rehung stored leaves hr =>
    obtain ⟨_, rfl⟩ := h.of_stored? stored
    exact hr.stored?_moved h stored

theorem MoveEnds.stored?_page (he : MoveEnds t nid pid (.ok (moved, touched)) t') (h : t.Whole) :
    t'.stored? nid = some moved := he.stored?_moved h.sound

theorem weight_of_verdict (h : t.Sound) (hs : t.stored? nid = some old)
    (hv : verdict t nid pid weight = .ok (moved, touched)) :
    moved.weight = weight.getD old.weight := by
  obtain ⟨_, rfl⟩ := h.of_stored? hs
  by_cases hpid : pid = old.pid
  · rw [verdict, hs] at hv
    simp only [if_pos hpid, Except.ok.injEq, Prod.mk.injEq] at hv
    rw [← hv.1]
  · obtain ⟨above, _, hmoved⟩ := moved_of_verdict hs hpid hv
    rw [hmoved]
    rfl

section Back

variable (hr : Rehung t old pid moved t') (h : t.Whole) (hs : t.stored? old.nid = some old)

include hr h hs

/-- The way to the parent that was left is open to the page again. -/
theorem Rehung.pathAbove_back (hpid : pid ≠ old.pid) :
    pathAbove t' old.nid old.pid = .ok old.path.dropLast := by
  have ho := (h.sound.of_stored? hs).1
  unfold pathAbove
  by_cases hz : old.pid = 0
  · rw [if_pos hz, ho.path_of_top hz]
    rfl
  · obtain ⟨p, hp⟩ := Option.isSome_iff_exists.1 (h.closed old hs hz)
    have hplace := h.linked.place old p hs hp
    have hoff : p.path.contains old.nid = false := by
      simpa using h.nid_not_mem_parent hs hp
    have hdepth : ¬ maxDepth < p.depth + 1 := by
      have hle := ho.depth_le
      rw [← ho.length_path, hplace, List.length_append,
        (h.sound.of_stored? hp).1.length_path] at hle
      exact Nat.not_lt.2 hle
    rw [if_neg hz, hr.stored?_left h hs hpid hp]
    show (if p.path.contains old.nid = true then _ else if maxDepth < p.depth + 1 then _ else
      Except.ok p.path) = _
    rw [hoff, if_neg Bool.false_ne_true, if_neg hdepth, hplace, List.dropLast_concat]

/-- Below the page there are no more levels than before. -/
theorem Rehung.deepest_sub_le : t'.deepest moved - moved.depth ≤ t.deepest old - old.depth := by
  have ho := (h.sound.of_stored? hs).1
  have hd := hr.destined h.sound ho
  obtain ⟨flag, _, hstored⟩ := hr.stored
  have hbound : t'.deepest moved ≤ moved.depth + (t.deepest old - old.depth) := by
    refine Table.deepest_le_of (Nat.le_add_right _ _) fun k' hk' => ?_
    obtain ⟨hk', hwithin⟩ := (mem_pagesWithin hr.sound hd.sound).1 hk'
    have hks' := (hr.sound.of_stored? hk').1
    have hpre := (Link.liesWithin_iff hks' hd.sound).1 hwithin
    rw [hstored, Option.map_eq_some_iff] at hk'
    obtain ⟨k, hk, rfl⟩ := hk'
    have hks := (h.sound.of_stored? hk).1
    have hk := h.sound.stored?_nid hk
    have hpath : (Link.carried old moved flag k).path = _ := hd.path_carried h.sound hs hk
    by_cases hw : k.LiesWithin old
    · have hdeep := Table.depth_le_deepest ((mem_pagesWithin h.sound ho).2 ⟨hk, hw⟩)
      rw [← hks'.length_path, hpath, if_pos hw, List.length_append, List.length_drop,
        hd.sound.length_path, hks.length_path]
      omega
    · -- The page is on the path of what has come to lie below it, and was on it before.
      rw [hpath, if_neg hw] at hpre
      have hmem : old.nid ∈ k.path := hpre.subset (hd.page ▸ hd.sound.nid_mem_path)
      exact absurd ((Link.liesWithin_iff hks ho).2 (h.path_of_mem hs k hk hmem)) hw
  omega

/-- The page can move back to the parent that was left. -/
theorem Rehung.verdict_back (hpid : pid ≠ old.pid) (weight : Option Int32) :
    ∃ back touched, verdict t' old.nid old.pid weight = .ok (back, touched) := by
  have ho := (h.sound.of_stored? hs).1
  have hd := hr.destined h.sound ho
  have hleaves : old.pid ≠ moved.pid := by
    rw [hd.parent]
    exact hpid.symm
  have hfit : ¬ maxDepth < old.path.dropLast.length + 1 + (t'.deepest moved - moved.depth) := by
    have hbelow := hr.deepest_sub_le h hs
    have hdeepest := Table.deepest_le h.sound ho.depth_le
    have hdepth := Table.depth_le_deepest ((mem_pagesWithin h.sound ho).2
      ⟨hs, (Link.liesWithin_iff ho ho).2 List.prefix_rfl⟩)
    have hpos := ho.depth_pos
    rw [List.length_dropLast, ho.length_path]
    omega
  rw [verdict_of_ne (hr.stored?_page h hs) hleaves, hr.pathAbove_back h hs hpid]
  simp only [depth_placed, if_neg hfit]
  exact ⟨_, _, rfl⟩

end Back

/-- A move that was made can be taken back. -/
theorem MoveEnds.verdict_back (he : MoveEnds t old.nid pid (.ok (moved, touched)) t')
    (h : t.Whole) (hs : t.stored? old.nid = some old) (weight : Option Int32) :
    ∃ back touched, verdict t' old.nid old.pid weight = .ok (back, touched) := by
  have hpage := he.stored?_page h
  cases he with
  | weighed _ stored stays =>
    rw [hs] at stored
    cases stored
    rw [verdict, hpage]
    simp only [↓reduceIte]
    exact ⟨_, _, rfl⟩
  | rehung stored leaves hr =>
    rw [hs] at stored
    cases stored
    exact hr.verdict_back h hs leaves weight

/-- Of the orphans that become roots each is seated at the top with its weight, and all other pages
keep their seats. -/
theorem Promoted.seat?_eq (hp : Promoted t cs touched t') (h : t.Sound)
    (ho : Orphans t path gone cs) (x : PageId) :
    t'.seat? x =
      if x ∈ cs.map Link.nid then (t.seat? x).map fun seat => (0, seat.2) else t.seat? x := by
  induction hp with
  | nil => rfl
  | @cons t t₁ t₂ c cs touched first rest ih =>
    have hdistinct := ho.distinct
    rw [List.map_cons, List.nodup_cons] at hdistinct
    rw [ih first.sound (ho.tail h first), first.seat?_eq h ho.head, List.map_cons]
    by_cases hx : x = c.nid
    · rw [hx, if_neg hdistinct.1, if_pos rfl, if_pos List.mem_cons_self,
        Table.seat?_of_stored? ho.head]
      rfl
    · have hmem : x ∈ c.nid :: cs.map Link.nid ↔ x ∈ cs.map Link.nid := by
        rw [List.mem_cons, or_iff_right hx]
      rw [if_neg hx, if_congr hmem rfl rfl]

end Arrange
end Outline
