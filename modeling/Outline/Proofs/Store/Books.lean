import Outline.Proofs.Store.Linked
import Outline.Proofs.Store.Reading

/-!
Books as parts of a table, and tables in which no page is left behind.

What a query finds depends on the links stored in its book alone. In a table where every parent is
stored, all pages on the way to a page belong to its book.
-/
namespace Outline
set_option autoImplicit false

namespace Table

variable {t t' t'' : Table} {b nid : PageId} {k l : Link}

/-- Whether two tables store the same links in a book. -/
def AgreeOn (b : PageId) (t t' : Table) : Prop :=
  ∀ l : Link, l.bid = b → (t.stored? l.nid = some l ↔ t'.stored? l.nid = some l)

theorem AgreeOn.refl (b : PageId) (t : Table) : t.AgreeOn b t := fun _ _ => Iff.rfl

theorem AgreeOn.trans (h : t.AgreeOn b t') (h' : t'.AgreeOn b t'') : t.AgreeOn b t'' :=
  fun l hl => (h l hl).trans (h' l hl)

theorem AgreeOn.symm (h : t.AgreeOn b t') : t'.AgreeOn b t := fun l hl => (h l hl).symm

theorem AgreeOn.stored?_eq (ha : t.AgreeOn b t') (h : t.Sound) (hl : t.stored? nid = some l)
    (hb : l.bid = b) : t'.stored? nid = some l := by
  have hl' := (ha l hb).1 (h.stored?_nid hl)
  rw [(h.of_stored? hl).2] at hl'
  exact hl'

/-- A query wants the same rows of tables that agree on its book. -/
theorem AgreeOn.filter_rows_eq (ha : t.AgreeOn b t') (h : t.Sound) (h' : t'.Sound) {q : Query}
    (hq : q.bid = b) : t.rows.filter q.wants = t'.rows.filter q.wants := by
  have hparts : (⟨t.rows.filter q.wants, t.ordered.filter _⟩ : Table) =
      ⟨t'.rows.filter q.wants, t'.ordered.filter _⟩ := by
    apply ext_mem
    intro r
    rw [List.mem_filter, List.mem_filter, h.mem_rows_iff, h'.mem_rows_iff]
    constructor
    · rintro ⟨⟨l, hl, rfl⟩, hw⟩
      exact ⟨⟨l, (ha l ((Query.bid_of_wants hw).trans hq)).1 hl, rfl⟩, hw⟩
    · rintro ⟨⟨l, hl, rfl⟩, hw⟩
      exact ⟨⟨l, (ha l ((Query.bid_of_wants hw).trans hq)).2 hl, rfl⟩, hw⟩
  exact Table.mk.inj hparts

theorem AgreeOn.chosen_eq (ha : t.AgreeOn b t') (h : t.Sound) (h' : t'.Sound) {q : Query}
    (hq : q.bid = b) : t.chosen q = t'.chosen q := by
  rw [chosen, chosen, wantedRows, wantedRows, ha.filter_rows_eq h h' hq]

theorem AgreeOn.deepest_eq (ha : t.AgreeOn l.bid t') (h : t.Sound) (h' : t'.Sound) :
    t.deepest l = t'.deepest l := by
  have hrows := ha.filter_rows_eq h h' (q := (Query.book l.bid).within l) rfl
  rw [deepest, deepest, pagesWithin, pagesWithin, hrows]

theorem agreeOn_put (hl : l.Sound) (hnew : t.stored? l.nid = none) (hb : l.bid ≠ b) :
    t.AgreeOn b (t.put (.ofLink l)) := by
  intro k hk
  rw [stored?_put hl]
  split
  · next hn =>
    rw [hn, hnew]
    constructor
    · intro hf
      cases hf
    · rintro ⟨⟩
      exact absurd hk hb
  · exact Iff.rfl

theorem agreeOn_erase (hs : t.stored? l.nid = some l) (hb : l.bid ≠ b) :
    t.AgreeOn b (t.erase l.nid) := by
  intro k hk
  rw [stored?_erase]
  split
  · next hn =>
    rw [hn, hs]
    constructor
    · rintro ⟨⟩
      exact absurd hk hb
    · intro hf
      cases hf
  · exact Iff.rfl

/-- A write that puts every stored link through a function leaves a book alone when the function
moves no link into it and none of its own. -/
theorem AgreeOn.of_map {f : Link → Link} (h : t.Sound)
    (hstored : ∀ y, t'.stored? y = (t.stored? y).map f)
    (hkeep : ∀ k, t.stored? k.nid = some k → k.bid = b → f k = k)
    (hback : ∀ k, t.stored? k.nid = some k → (f k).bid = b → k.bid = b) : t.AgreeOn b t' := by
  intro l hl
  rw [hstored, Option.map_eq_some_iff]
  constructor
  · intro hs
    exact ⟨l, hs, hkeep l hs hl⟩
  · rintro ⟨k, hk, rfl⟩
    have hs := h.stored?_nid hk
    rw [hkeep k hs (hback k hs hl)] at hk ⊢
    exact hk

theorem agreeOn_setHasChildren (h : t.Sound) (value : Bool)
    (hp : ∀ p, t.stored? nid = some p → p.bid ≠ b) :
    t.AgreeOn b (t.setHasChildren nid value) := by
  refine AgreeOn.of_map h (stored?_setHasChildren h nid · value) ?_ ?_
  · intro k hk hb
    rw [Link.flagged, if_neg]
    rintro rfl
    exact hp k hk hb
  · intro k _ hb
    rw [← k.bid_flagged nid value]
    exact hb

theorem agreeOn_weigh (h : t.Sound) (hs : t.stored? l.nid = some l) (weight : Int32)
    (hb : l.bid ≠ b) : t.AgreeOn b (t.put (.ofLink { l with weight := weight })) := by
  refine AgreeOn.of_map h (stored?_weigh h hs weight) ?_ ?_
  · intro k hk hkb
    rw [Link.weighed, if_neg]
    intro hn
    rw [hn, hs] at hk
    cases hk
    exact hb hkb
  · intro k _ hkb
    rw [← k.bid_weighed l.nid weight]
    exact hkb

/-- Whether every page is at the top or names a stored page as its parent. -/
def Closed (t : Table) : Prop :=
  ∀ k, t.stored? k.nid = some k → k.pid ≠ 0 → (t.stored? k.pid).isSome

theorem closed_empty : Table.empty.Closed := by
  intro k hk
  cases hk

/-- A new page at the top, or below a stored one, leaves no page behind. -/
theorem Closed.put_new (hc : t.Closed) (hl : l.Sound)
    (hpid : l.pid ≠ 0 → (t.stored? l.pid).isSome) : (t.put (.ofLink l)).Closed := by
  have hkeep : ∀ x, (t.stored? x).isSome → ((t.put (.ofLink l)).stored? x).isSome := by
    intro x hx
    rw [stored?_put hl]
    split
    · rfl
    · exact hx
  intro k hk hkp
  rw [stored?_put hl] at hk
  split at hk
  · cases hk
    exact hkeep _ (hpid hkp)
  · exact hkeep _ (hc k hk hkp)

/-- A write that puts every stored link through a function leaves no page behind when the function
names stored parents. -/
theorem Closed.of_map {f : Link → Link} (h : t.Sound)
    (hstored : ∀ y, t'.stored? y = (t.stored? y).map f)
    (hpid : ∀ k, t.stored? k.nid = some k → (f k).pid ≠ 0 → (t.stored? (f k).pid).isSome) :
    t'.Closed := by
  intro k' hk' hkp
  rw [hstored, Option.map_eq_some_iff] at hk'
  obtain ⟨k, hk, rfl⟩ := hk'
  rw [hstored, Option.isSome_map]
  exact hpid k (h.stored?_nid hk) hkp

theorem Closed.setHasChildren (hc : t.Closed) (h : t.Sound) (nid : PageId) (value : Bool) :
    (t.setHasChildren nid value).Closed := by
  refine Closed.of_map h (stored?_setHasChildren h nid · value) ?_
  intro k hk
  rw [Link.pid_flagged]
  exact hc k hk

theorem Closed.weigh (hc : t.Closed) (h : t.Sound) (hs : t.stored? l.nid = some l)
    (weight : Int32) : (t.put (.ofLink { l with weight := weight })).Closed := by
  refine Closed.of_map h (stored?_weigh h hs weight) ?_
  intro k hk
  rw [Link.pid_weighed]
  exact hc k hk

/-- A sound table in which every page lies below its parent, and no parent is missing. -/
structure Whole (t : Table) : Prop where
  sound : t.Sound
  linked : t.Linked
  closed : t.Closed

theorem whole_empty : Table.empty.Whole := ⟨sound_empty, linked_empty, closed_empty⟩

/-- All pages on the way to a page belong to its book. -/
theorem Whole.on_path (h : t.Whole) (hk : t.stored? k.nid = some k) :
    ∀ id ∈ k.path, ∃ p, t.stored? id = some p ∧ p.bid = k.bid := by
  -- The induction is on the depth, which a parent has one less of.
  induction hd : k.depth using Nat.strongRecOn generalizing k with
  | _ d ih =>
    intro id hid
    have hks := (h.sound.of_stored? hk).1
    by_cases hpid : k.pid = 0
    · rw [hks.path_of_top hpid, List.mem_singleton] at hid
      exact ⟨k, by rw [hid]; exact hk, rfl⟩
    · obtain ⟨p, hp⟩ := Option.isSome_iff_exists.1 (h.closed k hk hpid)
      obtain ⟨hps, hpn⟩ := h.sound.of_stored? hp
      have hplace := h.linked.place k p hk hp
      have hdepth : p.depth < d := by
        rw [← hd, ← hks.length_path, ← hps.length_path, hplace, List.length_append]
        exact Nat.lt_add_one _
      have hbid := hks.bid_of_path hps hplace
      rw [hplace, List.mem_append, List.mem_singleton] at hid
      rcases hid with hid | hid
      · rw [hbid]
        exact ih p.depth hdepth (by rw [hpn]; exact hp) rfl id hid
      · exact ⟨k, by rw [hid]; exact hk, rfl⟩

end Table

end Outline
