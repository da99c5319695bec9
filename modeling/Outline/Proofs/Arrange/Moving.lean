import Outline.Proofs.Arrange.Steps

/-!
Moving a page with all below it, on a sound table.

A move either is refused before it writes anything, or puts every stored link through one function:
the page gets its new place, what lies within it is hung under that place, and the flags of the
parents it leaves and joins are written. The link that is moved may be out of date, as long as its
page is still stored.
-/
namespace Outline
set_option autoImplicit false

namespace Link

/-- The link of a page that has come to lie below a path. -/
def placed (above : List PageId) (weight : Int32) (old : Link) : Link :=
  along (above ++ [old.nid]) old.hasChildren weight

/-- A link after a move of another one, before flags are written. -/
def moveOver (l old moved : Link) : Link :=
  if l.nid = old.nid then moved
  else if l.LiesWithin old then l.rehang old moved
  else l

/-- A link after a move of another one: its place, then the flag of the parent that was left, and
last the flag of the parent that was joined. -/
def carried (old moved : Link) (flag : Bool) (l : Link) : Link :=
  ((l.moveOver old moved).flagged old.pid flag).flagged moved.pid true

section MoveOver

variable {old moved l : Link}

theorem nid_moveOver (ho : old.Sound) (hm : moved.Sound) (hl : l.Sound) (hn : moved.nid = old.nid) :
    (l.moveOver old moved).nid = l.nid := by
  unfold moveOver
  split
  · next h => rw [hn, h]
  · next h =>
    split
    · next hw => rw [hw.rehang_eq ho hm hl hn h]
    · rfl

theorem pid_moveOver (ho : old.Sound) (hm : moved.Sound) (hl : l.Sound) (hn : moved.nid = old.nid)
    (hne : l.nid ≠ old.nid) : (l.moveOver old moved).pid = l.pid := by
  rw [moveOver, if_neg hne]
  split
  · next hw => rw [hw.rehang_eq ho hm hl hn hne]
  · rfl

end MoveOver

end Link

namespace Arrange

variable {t : Table} {old moved : Link} {nid pid : PageId} {above : List PageId} {weight : Int32}

/-- A path above is the empty one, at the top, or the path of the parent. -/
theorem pathAbove_ok (hp : pathAbove t nid pid = .ok above) :
    (pid = 0 ∧ above = []) ∨
      (pid ≠ 0 ∧ ∃ parent, t.stored? pid = some parent ∧ parent.isWithin nid = false ∧
        parent.depth + 1 ≤ maxDepth ∧ above = parent.path) := by
  unfold pathAbove at hp
  split at hp
  · next h => cases hp; exact .inl ⟨h, rfl⟩
  · next h =>
    cases hs : t.stored? pid with
    | none => simp [hs] at hp
    | some parent =>
      rw [hs] at hp
      simp only at hp
      split at hp
      · cases hp
      · next hw =>
        split at hp
        · cases hp
        · next hd =>
          cases hp
          exact .inr ⟨h, parent, rfl, by simpa using hw, Nat.not_lt.1 hd, rfl⟩

theorem sound_placed (h : t.Sound) (hn : 0 < old.nid) (hp : pathAbove t old.nid pid = .ok above) :
    (old.placed above weight).Sound := by
  rcases pathAbove_ok hp with ⟨_, rfl⟩ | ⟨_, parent, hs, hw, hd, rfl⟩
  · exact Link.sound_root hn _ _
  · have hps := (h.of_stored? hs).1
    refine hps.sound_child hn ?_ _ _ hd
    rintro heq
    have hmem := List.contains_iff_mem.2 (heq ▸ hps.nid_mem_path)
    rw [Link.isWithin, hmem] at hw
    cases hw

theorem depth_placed (above : List PageId) (weight : Int32) (old : Link) :
    (old.placed above weight).depth = above.length + 1 := by
  simp [Link.placed, Link.along]

theorem nid_placed (above : List PageId) (weight : Int32) (old : Link) :
    (old.placed above weight).nid = old.nid := by
  simp [Link.placed, Link.along]

/-- A page that may lie below a path gets a parent and a position, and these make up its link. -/
theorem newParent_ok (weight : Int32) (h : t.Sound) (hp : pathAbove t old.nid pid = .ok above) :
    ∃ parent?, newParent old.nid pid t = .ok parent? t ∧
      Position.under old.nid parent? =
        .ok ⟨above.length + 1, Chain.ofList (above ++ [old.nid])⟩ ∧
      (⟨old.nid, (parent?.map Link.bid).getD old.nid, pid, old.hasChildren, weight,
        above.length + 1, Chain.ofList (above ++ [old.nid])⟩ : Link) = old.placed above weight := by
  rcases pathAbove_ok hp with ⟨rfl, rfl⟩ | ⟨hne, parent, hs, hw, hd, rfl⟩
  · exact ⟨none, rfl, rfl, rfl⟩
  · obtain ⟨hps, hpn⟩ := h.of_stored? hs
    refine ⟨some parent, ?_, ?_, ?_⟩
    · rw [newParent_eq h, if_neg hne, hs]
      simp [hw]
    · rw [Position.under, Position.below, if_neg (by omega), hps.length_path]
    · rw [Link.placed, hps.along_child, hps.length_path, ← hpn]
      rfl

theorem moveSubtree_of_refused (h : t.Sound) {refusal : OutlineFault}
    (hp : pathAbove t old.nid pid = .error refusal) :
    moveSubtree old pid weight t = .error refusal t := by
  have hnew := newParent_eq h old.nid pid
  unfold pathAbove at hp
  unfold moveSubtree
  split at hp
  · cases hp
  · next hne =>
    rw [if_neg hne] at hnew
    cases hs : t.stored? pid with
    | none =>
      rw [hs] at hp hnew
      cases hp
      exact bind_of_error hnew
    | some parent =>
      rw [hs] at hp hnew
      simp only at hp hnew
      split at hp
      · next hw =>
        cases hp
        rw [if_pos hw] at hnew
        exact bind_of_error hnew
      · next hw =>
        rw [if_neg hw] at hnew
        split at hp
        · next hd =>
          cases hp
          rw [bind_of_ok hnew, Position.under, Position.below, if_pos hd]
          rfl
        · cases hp

/-- Writing the links of pages below one that has moved hangs each of them under the new place and
leaves all other pages alone. -/
theorem shiftAll_ok (ho : old.Sound) (hm : moved.Sound) (hn : moved.nid = old.nid)
    (ds : List Link) :
    ∀ t : Table, t.Sound → (ds.map Link.nid).Nodup →
      (∀ d ∈ ds, d.Sound ∧ d.LiesWithin old ∧ d.nid ≠ old.nid ∧ (t.row? d.nid).isSome ∧
        moved.depth + (d.depth - old.depth) ≤ maxDepth) →
      ∃ t', shiftAll old moved ds t = .ok () t' ∧ t'.Sound ∧
        ∀ x, t'.stored? x =
          match ds.find? (·.nid == x) with
          | some d => some (d.rehang old moved)
          | none => t.stored? x := by
  induction ds with
  | nil => intro t h _ _; exact ⟨t, rfl, h, fun _ => rfl⟩
  | cons d ds ih =>
    intro t h hnodup hds
    obtain ⟨hd, hw, hne, hrow, hfit⟩ := hds d List.mem_cons_self
    rw [List.map_cons, List.nodup_cons] at hnodup
    have hs : (d.rehang old moved).Sound := hw.sound_rehang ho hm hd hn hne hfit
    have hnid : (d.rehang old moved).nid = d.nid := by rw [hw.rehang_eq ho hm hd hn hne]
    have ht : (t.put (.ofLink (d.rehang old moved))).Sound := h.put hs
    obtain ⟨t', hrun, ht', hstored⟩ := ih (t.put (.ofLink (d.rehang old moved))) ht hnodup.2 (by
      intro e he
      obtain ⟨he1, he2, he3, he4, he5⟩ := hds e (List.mem_cons_of_mem _ he)
      refine ⟨he1, he2, he3, ?_, he5⟩
      rw [Table.row?_put]
      split
      · rfl
      · exact he4)
    refine ⟨t', ?_, ht', ?_⟩
    · have hup : t.update (d.rehang old moved) = .ok (t.put (.ofLink (d.rehang old moved))) :=
        Table.update_eq hs.valid (by rw [hnid]; exact hrow)
      rw [shiftAll, hw.shifted ho hm hd hn hne]
      simp only
      rw [bind_of_ok (write_of_ok hup), hrun]
    · intro x
      rw [hstored x, Table.stored?_put hs, hnid, List.find?_cons]
      by_cases hx : d.nid = x
      · have hnone : ds.find? (·.nid == x) = none := by
          rw [List.find?_eq_none]
          intro e he hex
          apply hnodup.1
          rw [hx, ← beq_iff_eq.1 hex]
          exact List.mem_map_of_mem he
        simp [hx, hnone]
      · have hbeq : (d.nid == x) = false := by simpa using hx
        rw [hbeq, if_neg (Ne.symm hx)]

/-- The links that are shifted by a move: what lies within the old link, but for its own page. -/
def shiftedBy (t : Table) (old : Link) : List Link :=
  (t.chosen ((Query.book old.bid).within old)).filter (·.nid != old.nid)

theorem mem_shiftedBy (h : t.Sound) (ho : old.Sound) {l : Link} :
    l ∈ shiftedBy t old ↔ t.stored? l.nid = some l ∧ l.LiesWithin old ∧ l.nid ≠ old.nid := by
  rw [shiftedBy, List.mem_filter, Table.mem_chosen h, bne_iff_ne]
  constructor
  · rintro ⟨⟨hl, hw⟩, hne⟩
    exact ⟨hl, (Query.wants_within (h.of_stored? hl).1 ho).1 hw, hne⟩
  · rintro ⟨hl, hw, hne⟩
    exact ⟨⟨hl, (Query.wants_within (h.of_stored? hl).1 ho).2 hw⟩, hne⟩

theorem nodup_shiftedBy (h : t.Sound) : ((shiftedBy t old).map Link.nid).Nodup :=
  List.Nodup.sublist (List.filter_sublist.map _) (Table.nodup_chosen h _)

theorem mem_pagesWithin (h : t.Sound) (ho : old.Sound) {l : Link} :
    l ∈ t.pagesWithin old ↔ t.stored? l.nid = some l ∧ l.LiesWithin old := by
  rw [Table.mem_pagesWithin h]
  constructor
  · rintro ⟨hl, hw⟩
    exact ⟨hl, (Query.wants_within (h.of_stored? hl).1 ho).1 hw⟩
  · rintro ⟨hl, hw⟩
    exact ⟨hl, (Query.wants_within (h.of_stored? hl).1 ho).2 hw⟩

/-- The link that is shifted for a page: the stored one, if it lies within the old link below its
page. -/
theorem find?_shiftedBy (h : t.Sound) (ho : old.Sound) (x : PageId) :
    (shiftedBy t old).find? (·.nid == x) =
      (t.stored? x).filter fun l => l.LiesWithin old ∧ l.nid ≠ old.nid := by
  ext d
  rw [Option.filter_eq_some_iff, decide_eq_true_iff]
  constructor
  · intro hf
    obtain ⟨hd, hw⟩ := (mem_shiftedBy h ho).1 (List.mem_of_find?_eq_some hf)
    have hdx : d.nid = x := by simpa using List.find?_some hf
    rw [hdx] at hd
    exact ⟨hd, hw⟩
  · rintro ⟨hd, hw⟩
    have hdx := (h.of_stored? hd).2
    have hmem : d ∈ shiftedBy t old := (mem_shiftedBy h ho).2 ⟨h.stored?_nid hd, hw⟩
    cases hf : (shiftedBy t old).find? (·.nid == x) with
    | none => exact absurd (beq_iff_eq.2 hdx) (List.find?_eq_none.1 hf d hmem)
    | some e =>
      have he := ((mem_shiftedBy h ho).1 (List.mem_of_find?_eq_some hf)).1
      have hex : e.nid = x := by simpa using List.find?_some hf
      rw [hex, hd] at he
      exact he.symm

/-- The table with the moved link written and all others shifted. -/
theorem shift_ok (h : t.Sound) (ho : old.Sound) (hrow : (t.row? old.nid).isSome)
    (hm : moved.Sound) (hn : moved.nid = old.nid)
    (hfit : moved.depth + (t.deepest old - old.depth) ≤ maxDepth) :
    ∃ t', shiftAll old moved (shiftedBy t old) (t.put (.ofLink moved)) = .ok () t' ∧ t'.Sound ∧
      ∀ x, t'.stored? x = (t.stored? x).map (Link.moveOver · old moved) := by
  obtain ⟨t', hrun, ht', hstored⟩ := shiftAll_ok ho hm hn (shiftedBy t old) _ (h.put hm)
    (nodup_shiftedBy h) (by
      intro d hd
      obtain ⟨hd1, hd2, hd3⟩ := (mem_shiftedBy h ho).1 hd
      have hdeep := Table.depth_le_deepest ((mem_pagesWithin h ho).2 ⟨hd1, hd2⟩)
      refine ⟨(h.of_stored? hd1).1, hd2, hd3, ?_, by omega⟩
      rw [Table.row?_put]
      split
      · rfl
      · rw [Table.row?_of_stored? h, hd1]
        rfl)
  refine ⟨t', hrun, ht', ?_⟩
  intro x
  rw [hstored x, Table.stored?_put hm, hn, find?_shiftedBy h ho]
  cases hx : t.stored? x with
  | none =>
    have hne : x ≠ old.nid := by
      rintro rfl
      rw [Table.row?_of_stored? h, hx] at hrow
      cases hrow
    rw [Option.filter_none, if_neg hne]
    rfl
  | some l =>
    rw [Option.map_some, Link.moveOver, (h.of_stored? hx).2]
    by_cases hxo : x = old.nid
    · rw [if_pos hxo, Option.filter_some_neg (by simp [(h.of_stored? hx).2, hxo]), if_pos hxo]
    · rw [if_neg hxo, if_neg hxo]
      by_cases hw : l.LiesWithin old
      · rw [if_pos hw, Option.filter_some_pos (by simp [(h.of_stored? hx).2, hxo, hw])]
      · rw [if_neg hw, Option.filter_some_neg (by simp [hw])]

/-- A flag that tells whether, after a move, another page of the old book still names the parent
that was left. -/
def LeavesFlag (t : Table) (old moved : Link) (flag : Bool) : Prop :=
  flag = true ↔ ∃ k, t.stored? k.nid = some k ∧ (k.moveOver old moved).bid = old.bid ∧
    k.pid = old.pid ∧ k.nid ≠ old.nid

/-- What a table has become when a page has moved to another parent: the page has its place there,
every stored link was carried along, and the parent that was left is marked when another page of
the book still names it. -/
structure Rehung (t : Table) (old : Link) (pid : PageId) (moved : Link) (t' : Table) : Prop where
  sound : t'.Sound
  place : ∃ above weight, pathAbove t old.nid pid = .ok above ∧ moved = old.placed above weight ∧
    moved.depth + (t.deepest old - old.depth) ≤ maxDepth
  stored : ∃ flag, LeavesFlag t old moved flag ∧
    ∀ x, t'.stored? x = (t.stored? x).map (Link.carried old moved flag)

/-- The books that a move touches: that of the old link, and that of the new one if it is another.
-/
def touchedBy (old moved : Link) : List PageId :=
  if moved.bid = old.bid then [old.bid] else [old.bid, moved.bid]

theorem pid_placed (h : t.Sound) (hp : pathAbove t old.nid pid = .ok above) :
    (old.placed above weight).pid = pid := by
  rcases pathAbove_ok hp with ⟨rfl, rfl⟩ | ⟨_, parent, hs, _, _, rfl⟩
  · rfl
  · rw [Link.placed, (h.of_stored? hs).1.along_child]
    exact (h.of_stored? hs).2

/-- The flag of the parent that is left, in terms of the table before the move. -/
theorem leavesFlag_otherChildren {t₁ : Table} (h : t.Sound) (h₁ : t₁.Sound) (ho : old.Sound)
    (hm : moved.Sound) (hn : moved.nid = old.nid)
    (hstored : ∀ x, t₁.stored? x = (t.stored? x).map (Link.moveOver · old moved)) :
    LeavesFlag t old moved (otherChildren t₁ old) := by
  rw [LeavesFlag, otherChildren, decide_eq_true_iff, Table.countChildren_pos_iff h₁]
  constructor
  · rintro ⟨l, hl, hbid, hpid, hne⟩
    rw [hstored, Option.map_eq_some_iff] at hl
    obtain ⟨k, hk, rfl⟩ := hl
    obtain ⟨hks, hkn⟩ := h.of_stored? hk
    rw [Link.nid_moveOver ho hm hks hn] at hne hk
    rw [Link.pid_moveOver ho hm hks hn hne] at hpid
    exact ⟨k, hk, hbid, hpid, hne⟩
  · rintro ⟨k, hk, hbid, hpid, hne⟩
    have hks := (h.of_stored? hk).1
    refine ⟨k.moveOver old moved, ?_, hbid, ?_, ?_⟩
    · rw [Link.nid_moveOver ho hm hks hn, hstored, hk]
      rfl
    · rw [Link.pid_moveOver ho hm hks hn hne, hpid]
    · rw [Link.nid_moveOver ho hm hks hn]
      exact hne

theorem moveSubtree_ok (weight : Int32) (h : t.Sound) (ho : old.Sound)
    (hrow : (t.row? old.nid).isSome) (hp : pathAbove t old.nid pid = .ok above)
    (hfit : above.length + 1 + (t.deepest old - old.depth) ≤ maxDepth) :
    ∃ t', Rehung t old pid (old.placed above weight) t' ∧
      moveSubtree old pid weight t =
        .ok (old.placed above weight, touchedBy old (old.placed above weight)) t' := by
  have hm : (old.placed above weight).Sound := sound_placed h ho.nid_pos hp
  have hn := nid_placed above weight old
  have hd := depth_placed above weight old
  obtain ⟨parent?, hnew, hunder, hlink⟩ := newParent_ok weight h hp
  obtain ⟨t₁, hshift, ht₁, hstored⟩ :=
    shift_ok h ho hrow hm hn (by rw [hd]; exact hfit)
  refine ⟨(t₁.setHasChildren old.pid (otherChildren t₁ old)).setHasChildren pid true,
    ⟨(ht₁.setHasChildren _ _).setHasChildren _ _, ⟨above, weight, hp, rfl, by rw [hd]; exact hfit⟩,
      otherChildren t₁ old, leavesFlag_otherChildren h ht₁ ho hm hn hstored, ?_⟩, ?_⟩
  · intro x
    rw [Table.stored?_setHasChildren (ht₁.setHasChildren _ _), Table.stored?_setHasChildren ht₁,
      hstored, Option.map_map, Option.map_map]
    unfold Link.carried
    rw [pid_placed h hp]
    rfl
  · have hup : t.update (old.placed above weight) =
        .ok (t.put (.ofLink (old.placed above weight))) :=
      Table.update_eq hm.valid (by rw [hn]; exact hrow)
    have hbid : (parent?.map Link.bid).getD old.nid = (old.placed above weight).bid :=
      congrArg Link.bid hlink
    unfold moveSubtree
    rw [bind_of_ok hnew, hunder, bind_of_ok (show require (.ok _) t = .ok _ t from rfl),
      bind_of_ok (look_of_ok (Table.maxDepthWithin_eq h old))]
    simp only [hlink]
    rw [if_neg (Nat.not_lt.2 hfit), bind_of_ok (look_of_ok (Table.select_eq h _)),
      bind_of_ok (require_check hm), bind_of_ok (write_of_ok hup),
      bind_of_ok (show shiftAll old _ (List.filter _ _) _ = _ from hshift),
      bind_of_ok (leaveParent_eq ht₁ old), hbid]
    split
    · rfl
    · next hz =>
      rw [Decidable.not_not.1 hz, setHasChildren_zero (ht₁.setHasChildren _ _)]
      rfl

theorem moveSubtree_of_deep (h : t.Sound) (hp : pathAbove t old.nid pid = .ok above)
    (hdeep : maxDepth < above.length + 1 + (t.deepest old - old.depth)) :
    moveSubtree old pid weight t =
      .error (.depthExceeded old.nid (above.length + 1 + (t.deepest old - old.depth))) t := by
  obtain ⟨parent?, hnew, hunder, _⟩ := newParent_ok weight h hp
  unfold moveSubtree
  rw [bind_of_ok hnew, hunder, bind_of_ok (show require (.ok _) t = .ok _ t from rfl),
    bind_of_ok (look_of_ok (Table.maxDepthWithin_eq h old))]
  simp only
  rw [if_pos hdeep]
  rfl

theorem move_of_ne (hne : pid ≠ old.pid) (weight : Option Int32) :
    move old pid weight t = moveSubtree old pid (weight.getD old.weight) t := by
  unfold move
  simp only
  rw [if_neg hne]

/-- Storing again the link that is stored changes nothing. -/
theorem put_stored (h : t.Sound) (hs : t.stored? old.nid = some old) : t.put (.ofLink old) = t := by
  apply Table.put_row
  change t.row? old.nid = _
  rw [Table.row?_of_stored? h, hs, Option.map_some]

/-- Under the parent it has, a page only gets its weight. -/
theorem move_of_eq (h : t.Sound) (hs : t.stored? old.nid = some old) (weight : Option Int32) :
    move old old.pid weight t =
      .ok ({ old with weight := weight.getD old.weight }, [old.bid])
        (t.put (.ofLink { old with weight := weight.getD old.weight })) := by
  have ho := (h.of_stored? hs).1
  have hrow : (t.row? old.nid).isSome := by rw [Table.row?_of_stored? h, hs]; rfl
  unfold move
  simp only [↓reduceIte]
  by_cases hw : old.weight ≠ weight.getD old.weight
  · have hup := Table.update_eq (ho.withWeight (weight.getD old.weight)).valid hrow
    rw [if_pos hw, bind_of_ok (write_of_ok hup)]
    rfl
  · rw [if_neg hw, ← Decidable.not_not.1 hw, put_stored h hs]
    rfl

end Arrange
end Outline
