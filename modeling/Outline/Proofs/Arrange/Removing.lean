import Outline.Proofs.Arrange.Moving

/-!
Removing a page, on a sound table.

The children of a book root become roots one after the other. Their links were read before the first
of them moved, so each promotion is a move of a link that may be out of date.
-/
namespace Outline.Arrange
set_option autoImplicit false

variable {t : Table} {old c : Link} {nid : PageId}

/-- A page of a sound table can always become a root. -/
theorem promote_ok (h : t.Sound) (hc : c.Sound) (hpid : c.pid ≠ 0) (hrow : (t.row? c.nid).isSome) :
    ∃ t', Rehung t c 0 (c.placed [] c.weight) t' ∧
      move c 0 none t = .ok (c.placed [] c.weight, touchedBy c (c.placed [] c.weight)) t' := by
  have hp : pathAbove t c.nid 0 = .ok [] := rfl
  have hfit : ([] : List PageId).length + 1 + (t.deepest c - c.depth) ≤ maxDepth := by
    have hdeep := Table.deepest_le h hc.depth_le
    have hpos := hc.depth_pos
    simp only [List.length_nil, maxDepth] at hdeep ⊢
    omega
  obtain ⟨t', hr, hrun⟩ := moveSubtree_ok c.weight h hc hrow hp hfit
  exact ⟨t', hr, (move_of_ne (Ne.symm hpid) none).trans hrun⟩

/-- Pages that become roots one after the other, with the books this touches. -/
inductive Promoted : Table → List Link → List PageId → Table → Prop where
  | nil (t : Table) : Promoted t [] [] t
  | cons {t t₁ t₂ : Table} {c : Link} {cs : List Link} {touched : List PageId}
      (first : Rehung t c 0 (c.placed [] c.weight) t₁) (rest : Promoted t₁ cs touched t₂) :
      Promoted t (c :: cs) (touchedBy c (c.placed [] c.weight) ++ touched) t₂

theorem Rehung.isSome_row? {t' : Table} {pid : PageId} {moved : Link}
    (hr : Rehung t old pid moved t') (h : t.Sound) (x : PageId) :
    (t'.row? x).isSome = (t.row? x).isSome := by
  obtain ⟨flag, _, hstored⟩ := hr.stored
  rw [Table.row?_of_stored? hr.sound, Table.row?_of_stored? h, hstored]
  simp

theorem promoteAll_ok (cs : List Link) :
    ∀ t : Table, t.Sound → (∀ c ∈ cs, c.Sound ∧ c.pid ≠ 0 ∧ (t.row? c.nid).isSome) →
      ∃ touched t', Promoted t cs touched t' ∧ promoteAll cs t = .ok touched t' := by
  induction cs with
  | nil => intro t _ _; exact ⟨[], t, .nil t, rfl⟩
  | cons c cs ih =>
    intro t h hcs
    obtain ⟨hc, hpid, hrow⟩ := hcs c List.mem_cons_self
    obtain ⟨t₁, hr, hmove⟩ := promote_ok h hc hpid hrow
    obtain ⟨touched, t₂, hrest, hrun⟩ := ih t₁ hr.sound (by
      intro d hd
      obtain ⟨hd1, hd2, hd3⟩ := hcs d (List.mem_cons_of_mem _ hd)
      exact ⟨hd1, hd2, by rw [hr.isSome_row? h]; exact hd3⟩)
    refine ⟨_, t₂, .cons hr hrest, ?_⟩
    rw [promoteAll, bind_of_ok hmove]
    simp only
    rw [bind_of_ok hrun]
    rfl

theorem Promoted.sound {t' : Table} {cs : List Link} {touched : List PageId}
    (hp : Promoted t cs touched t') (h : t.Sound) : t'.Sound := by
  induction hp with
  | nil => exact h
  | cons first _ ih => exact ih first.sound

theorem Promoted.isSome_row? {t' : Table} {cs : List Link} {touched : List PageId}
    (hp : Promoted t cs touched t') (h : t.Sound) (x : PageId) :
    (t'.row? x).isSome = (t.row? x).isSome := by
  induction hp with
  | nil => rfl
  | cons first _ ih => rw [ih first.sound, first.isSome_row? h]

/-- Whatever has become a root before, the next page can become one too. -/
theorem promotion_ok {cs done rest : List Link} (h : t.Sound)
    (hcs : ∀ c ∈ cs, c.Sound ∧ c.pid ≠ 0 ∧ (t.row? c.nid).isSome)
    (hsplit : cs = done ++ c :: rest) :
    ∃ touched t₁ moved t₂, promoteAll done t = .ok touched t₁ ∧
      move c 0 none t₁ = .ok moved t₂ := by
  subst hsplit
  obtain ⟨hc, hpid, hrow⟩ := hcs c (List.mem_append_right done List.mem_cons_self)
  obtain ⟨touched, t₁, hp, hrun⟩ := promoteAll_ok done t h fun d hd =>
    hcs d (List.mem_append_left _ hd)
  rw [← hp.isSome_row? h] at hrow
  obtain ⟨t₂, _, hmove⟩ := promote_ok (hp.sound h) hc hpid hrow
  exact ⟨touched, t₁, _, t₂, hrun, hmove⟩

/-- The children that become roots when a page is removed: those of a book root. -/
def orphansOf (t : Table) (old : Link) : List Link :=
  if old.isBookRoot then t.chosen ((Query.book old.bid).childrenOf old.nid) else []

theorem mem_orphansOf (h : t.Sound) :
    c ∈ orphansOf t old ↔
      old.isBookRoot = true ∧ t.stored? c.nid = some c ∧ c.bid = old.bid ∧ c.pid = old.nid := by
  unfold orphansOf
  split
  · next hb => rw [Table.mem_chosen h, Query.wants_childrenOf]; simp [hb]
  · next hb => simp [hb]

theorem sound_of_mem_orphansOf (h : t.Sound) (hc : c ∈ orphansOf t old) : c.Sound :=
  (h.of_stored? ((mem_orphansOf h).1 hc).2.1).1

theorem nodup_orphansOf (h : t.Sound) (old : Link) : ((orphansOf t old).map Link.nid).Nodup := by
  unfold orphansOf
  split
  · exact Table.nodup_chosen h _
  · exact List.nodup_nil

/-- Without the page its orphans are still there, and none is at the top yet. -/
theorem promotable_orphansOf (h : t.Sound) (hl : t.stored? nid = some old) :
    ∀ c ∈ orphansOf t old, c.Sound ∧ c.pid ≠ 0 ∧ ((t.erase nid).row? c.nid).isSome := by
  intro c hc
  obtain ⟨ho, hn⟩ := h.of_stored? hl
  obtain ⟨_, hc, _, hpid⟩ := (mem_orphansOf h).1 hc
  have hcs := (h.of_stored? hc).1
  have hne : c.nid ≠ nid := by
    intro heq
    exact hcs.other (by rw [hpid, hn, heq])
  refine ⟨hcs, by rw [hpid]; exact ho.nid_ne_zero, ?_⟩
  rw [Table.row?_erase, if_neg hne, Table.row?_of_stored? h, hc]
  rfl

theorem delete_of_missing (h : t.Sound) (hl : t.stored? nid = none) :
    delete nid t = .error (.pageMissing nid) t :=
  bind_of_error (linkOf_of_missing h hl)

theorem delete_of_stored (h : t.Sound) (hl : t.stored? nid = some old) :
    ∃ touched t₁, Promoted (t.erase nid) (orphansOf t old) touched t₁ ∧
      delete nid t =
        .ok (old.bid :: touched) (t₁.setHasChildren old.pid (otherChildren t₁ old)) := by
  obtain ⟨_, hn⟩ := h.of_stored? hl
  have hrow : (t.row? nid).isSome := by rw [Table.row?_of_stored? h, hl]; rfl
  obtain ⟨touched, t₁, hp, hrun⟩ := promoteAll_ok (orphansOf t old) _ h.erase
    (promotable_orphansOf h hl)
  refine ⟨touched, t₁, hp, ?_⟩
  unfold delete
  rw [bind_of_ok (linkOf_of_stored h hl)]
  have horphans : (if old.isBookRoot = true then
      look (·.select ((Query.book old.bid).childrenOf nid)) else pure []) t =
        (.ok (orphansOf t old) t : EStateM.Result OutlineFault Table (List Link)) := by
    unfold orphansOf
    split
    · rw [look_of_ok (Table.select_eq h _), hn]
    · rfl
  rw [bind_of_ok horphans, bind_of_ok (write_of_ok (Table.delete_eq hrow)), bind_of_ok hrun,
    bind_of_ok (leaveParent_eq (hp.sound (h.erase)) old)]
  rfl

end Outline.Arrange
