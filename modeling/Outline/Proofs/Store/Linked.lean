import Outline.Proofs.Store.Lookup

/-!
Tables in which every page lies under its parent and is marked when it has children.

A parent need not be stored: removing an inner page leaves its children behind.
-/
namespace Outline
set_option autoImplicit false

/-- Every stored page lies one level below its parent, if that is stored, and every page but `x` is
marked as having children exactly when a stored page names it as its parent. -/
structure Table.LinkedBut (x : PageId) (t : Table) : Prop where
  place : ∀ k p, t.stored? k.nid = some k → t.stored? k.pid = some p → k.path = p.path ++ [k.nid]
  flag : ∀ p, t.stored? p.nid = some p → p.nid ≠ x →
    (p.hasChildren = true ↔ ∃ k, t.stored? k.nid = some k ∧ k.pid = p.nid)

/-- Every stored page lies one level below its parent, if that is stored, and is marked as having
children exactly when it has some. Zero is no page, so no page is left out. -/
abbrev Table.Linked (t : Table) : Prop := t.LinkedBut 0

namespace Table

variable {t : Table} {l old : Link} {x : PageId}

theorem linked_empty : Table.empty.Linked := by
  constructor
  · intro k p hk
    cases hk
  · intro p hp
    cases hp

/-- A new page that no stored page names leaves all but its parent marked as before. -/
theorem Linked.put_new (hlink : t.Linked) (h : t.Sound) (hl : l.Sound)
    (hnew : t.stored? l.nid = none) (hflag : l.hasChildren = false)
    (hnamed : ∀ k, t.stored? k.nid = some k → k.pid ≠ l.nid)
    (hplace : ∀ p, t.stored? l.pid = some p → l.path = p.path ++ [l.nid]) :
    (t.put (.ofLink l)).LinkedBut l.pid := by
  have hback : ∀ {y k}, (t.put (.ofLink l)).stored? y = some k → k = l ∨ t.stored? y = some k := by
    intro y k hk
    rw [stored?_put hl] at hk
    split at hk
    · cases hk
      exact .inl rfl
    · exact .inr hk
  have hkeep : ∀ {k}, t.stored? k.nid = some k → (t.put (.ofLink l)).stored? k.nid = some k := by
    intro k hk
    rw [stored?_put hl, if_neg, hk]
    intro heq
    rw [heq, hnew] at hk
    cases hk
  constructor
  · intro k p hk hp
    rw [stored?_put hl] at hp
    rcases hback hk with rfl | hk
    · rw [if_neg hl.other] at hp
      exact hplace p hp
    · rw [if_neg (hnamed k hk)] at hp
      exact hlink.place k p hk hp
  · intro p hp hpx
    rcases hback hp with rfl | hp
    · rw [hflag]
      constructor
      · intro hf
        cases hf
      · rintro ⟨k, hk, hkp⟩
        rcases hback hk with rfl | hk
        · exact absurd hkp hl.other
        · exact absurd hkp (hnamed k hk)
    · rw [hlink.flag p hp (h.of_stored? hp).1.nid_ne_zero]
      constructor
      · rintro ⟨k, hk, hkp⟩
        exact ⟨k, hkeep hk, hkp⟩
      · rintro ⟨k, hk, hkp⟩
        rcases hback hk with rfl | hk
        · exact absurd hkp.symm hpx
        · exact ⟨k, hk, hkp⟩

/-- A write that puts every stored link through a function keeps a table linked when the function
keeps places and flags right. -/
theorem LinkedBut.of_map {t' : Table} {f : Link → Link} (h : t.Sound)
    (hstored : ∀ y, t'.stored? y = (t.stored? y).map f)
    (hnid : ∀ k, t.stored? k.nid = some k → (f k).nid = k.nid)
    (hplace : ∀ k p, t.stored? k.nid = some k → t.stored? p.nid = some p → (f k).pid = p.nid →
      (f k).path = (f p).path ++ [k.nid])
    (hflag : ∀ p, t.stored? p.nid = some p → p.nid ≠ x →
      ((f p).hasChildren = true ↔ ∃ k, t.stored? k.nid = some k ∧ (f k).pid = p.nid)) :
    t'.LinkedBut x := by
  have hback : ∀ {y k'}, t'.stored? y = some k' →
      ∃ k, t.stored? k.nid = some k ∧ k.nid = y ∧ k' = f k := by
    intro y k' hk'
    rw [hstored, Option.map_eq_some_iff] at hk'
    obtain ⟨k, hk, rfl⟩ := hk'
    exact ⟨k, h.stored?_nid hk, (h.of_stored? hk).2, rfl⟩
  constructor
  · intro k' p' hk' hp'
    obtain ⟨k, hk, _, rfl⟩ := hback hk'
    obtain ⟨p, hp, hpk, rfl⟩ := hback hp'
    rw [hnid k hk]
    exact hplace k p hk hp hpk.symm
  · intro p' hp' hpx
    obtain ⟨p, hp, _, rfl⟩ := hback hp'
    rw [hnid p hp] at hpx ⊢
    rw [hflag p hp hpx]
    constructor
    · rintro ⟨k, hk, hkp⟩
      refine ⟨f k, ?_, hkp⟩
      rw [hnid k hk, hstored, hk]
      rfl
    · rintro ⟨k', hk', hkp⟩
      obtain ⟨k, hk, _, rfl⟩ := hback hk'
      exact ⟨k, hk, hkp⟩

/-- Writing the flag that was left out, as it should be, links a table. -/
theorem LinkedBut.setHasChildren (hlink : t.LinkedBut x) (h : t.Sound) {value : Bool}
    (hvalue : ∀ p, t.stored? x = some p →
      (value = true ↔ ∃ k, t.stored? k.nid = some k ∧ k.pid = x)) :
    (t.setHasChildren x value).Linked := by
  refine LinkedBut.of_map h (stored?_setHasChildren h x · value) (fun k _ => k.nid_flagged x value)
    ?_ ?_
  · intro k p hk hp hkp
    rw [Link.pid_flagged] at hkp
    rw [Link.path_flagged, Link.path_flagged]
    exact hlink.place k p hk (by rw [hkp]; exact hp)
  · intro p hp _
    simp only [Link.pid_flagged, Link.hasChildren_flagged]
    split
    · next hpx => rw [hpx]; exact hvalue p (by rw [← hpx]; exact hp)
    · next hpx => exact hlink.flag p hp hpx

/-- Without a page, only the flag of its parent may be wrong. -/
theorem Linked.erase (hlink : t.Linked) (h : t.Sound) (hs : t.stored? old.nid = some old) :
    (t.erase old.nid).LinkedBut old.pid := by
  have hback : ∀ {y k}, (t.erase old.nid).stored? y = some k →
      y ≠ old.nid ∧ t.stored? y = some k := by
    intro y k hk
    rw [stored?_erase] at hk
    split at hk
    · cases hk
    · next hy => exact ⟨hy, hk⟩
  constructor
  · intro k p hk hp
    exact hlink.place k p (hback hk).2 (hback hp).2
  · intro p hp hpx
    have hp := (hback hp).2
    rw [hlink.flag p hp (h.of_stored? hp).1.nid_ne_zero]
    constructor
    · rintro ⟨k, hk, hkp⟩
      refine ⟨k, ?_, hkp⟩
      rw [stored?_erase, if_neg, hk]
      intro heq
      rw [heq, hs] at hk
      cases hk
      exact hpx hkp.symm
    · rintro ⟨k, hk, hkp⟩
      exact ⟨k, (hback hk).2, hkp⟩

theorem LinkedBut.weigh (hlink : t.LinkedBut x) (h : t.Sound) (hs : t.stored? old.nid = some old)
    (weight : Int32) : (t.put (.ofLink { old with weight := weight })).LinkedBut x := by
  refine LinkedBut.of_map h (stored?_weigh h hs weight) (fun k _ => k.nid_weighed old.nid weight)
    ?_ ?_
  · intro k p hk hp hkp
    rw [Link.pid_weighed] at hkp
    rw [Link.path_weighed, Link.path_weighed]
    exact hlink.place k p hk (by rw [hkp]; exact hp)
  · intro p hp hpx
    simp only [Link.pid_weighed, Link.hasChildren_weighed]
    exact hlink.flag p hp hpx

end Table

end Outline
