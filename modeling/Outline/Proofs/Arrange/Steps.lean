import Outline.Proofs.Store.Reading

/-!
The pieces of work on a sound table, each with the table it leaves or the refusal it ends in.
-/
namespace Outline
set_option autoImplicit false

section Work

variable {ε σ α β : Type} {x : EStateM ε σ α} {f : α → EStateM ε σ β} {s s' : σ}

theorem bind_of_ok {a : α} (h : x s = .ok a s') : (x >>= f) s = f a s' := by
  change EStateM.bind x f s = _
  rw [EStateM.bind, h]

theorem bind_of_error {e : ε} (h : x s = .error e s') : (x >>= f) s = .error e s' := by
  change EStateM.bind x f s = _
  rw [EStateM.bind, h]

theorem ok_of_bind_ok {b : β} {s'' : σ} (h : (x >>= f) s = .ok b s'') :
    ∃ a s', x s = .ok a s' ∧ f a s' = .ok b s'' := by
  cases hx : x s with
  | ok a s' =>
    rw [bind_of_ok hx] at h
    exact ⟨a, s', rfl, h⟩
  | error e s' =>
    rw [bind_of_error hx] at h
    cases h

end Work

namespace Arrange

variable {t : Table} {l parent old moved : Link} {nid pid : PageId} {weight : Int32}

theorem look_of_ok {α : Type} {f : Table → Except StoreFault α} {a : α} (h : f t = .ok a) :
    look f t = .ok a t := by
  rw [look, h]

theorem write_of_ok {f : Table → Except StoreFault Table} {t' : Table} (h : f t = .ok t') :
    write f t = .ok () t' := by
  rw [write, h]

theorem linkOf_of_stored (h : t.Sound) (hl : t.stored? nid = some l) :
    linkOf nid t = .ok l t := by
  rw [linkOf, bind_of_ok (look_of_ok (Table.link?_eq h nid)), hl]
  rfl

theorem linkOf_of_missing (h : t.Sound) (hl : t.stored? nid = none) :
    linkOf nid t = .error (.pageMissing nid) t := by
  rw [linkOf, bind_of_ok (look_of_ok (Table.link?_eq h nid)), hl]
  rfl

theorem requireUnplaced_of_missing (h : t.Sound) (hl : t.stored? nid = none) :
    requireUnplaced nid t = .ok () t := by
  rw [requireUnplaced, bind_of_ok (look_of_ok (Table.link?_eq h nid)), hl]
  rfl

theorem requireUnplaced_of_stored (h : t.Sound) (hl : t.stored? nid = some l) :
    requireUnplaced nid t = .error (.alreadyInBook nid) t := by
  rw [requireUnplaced, bind_of_ok (look_of_ok (Table.link?_eq h nid)), hl]
  rfl

theorem check_of_sound (hl : l.Sound) : l.check = .ok () := by
  have hv : l.fault? = none := hl.valid
  rw [Link.check, hv]

theorem require_check (hl : l.Sound) : require l.check t = .ok () t := by
  rw [check_of_sound hl]
  rfl

/-- Starting a book stores its root, unless its id is no page id or is stored already. -/
theorem addRoot_eq (h : t.Sound) (nid : PageId) (weight : Int32) :
    addRoot (Link.root nid weight) t =
      if nid ≤ 0 then .error (.invalidLink (.invalidId nid)) t
      else if (t.stored? nid).isSome then .error (.alreadyInBook nid) t
      else .ok () (t.put (.ofLink (Link.root nid weight))) := by
  have hroot : (Link.root nid weight).nid = nid := rfl
  unfold addRoot
  split
  · next hn =>
    have hc : (Link.root nid weight).check = .error (.invalidId nid) := by
      rw [Link.check, Link.fault?, hroot, if_pos hn]
    rw [hc]
    rfl
  · next hn =>
    have hs : (Link.root nid weight).Sound := Link.sound_root (Int64.not_le.1 hn) false weight
    rw [bind_of_ok (require_check hs), hroot]
    cases hl : t.stored? nid with
    | some l => rw [bind_of_error (requireUnplaced_of_stored h hl)]; rfl
    | none =>
      rw [bind_of_ok (requireUnplaced_of_missing h hl)]
      exact write_of_ok (Table.insert_eq hs.valid ((Table.stored?_eq_none_iff h).1 hl))

/-- Placing a page under a stored parent stores it and marks the parent. -/
theorem addChild_eq (h : t.Sound) (nid pid : PageId) (weight : Int32) :
    addChild nid pid weight t =
      if (t.stored? nid).isSome then .error (.alreadyInBook nid) t
      else match t.stored? pid with
        | none => .error (.pageMissing pid) t
        | some parent =>
          if maxDepth < parent.depth + 1 then .error (.depthExceeded nid (parent.depth + 1)) t
          else if nid ≤ 0 then .error (.invalidLink (.invalidId nid)) t
          else .ok (.along (parent.path ++ [nid]) false weight)
            ((t.put (.ofLink (.along (parent.path ++ [nid]) false weight))).setHasChildren
              pid true) := by
  unfold addChild
  cases hl : t.stored? nid with
  | some l => rw [bind_of_error (requireUnplaced_of_stored h hl)]; rfl
  | none =>
    rw [bind_of_ok (requireUnplaced_of_missing h hl)]
    cases hp : t.stored? pid with
    | none => rw [bind_of_error (linkOf_of_missing h hp)]; rfl
    | some parent =>
      obtain ⟨hps, hpn⟩ := h.of_stored? hp
      rw [bind_of_ok (linkOf_of_stored h hp), hps.child nid weight]
      simp only [Option.isSome_none, Bool.false_eq_true, if_false]
      split
      · rfl
      · next hd =>
        have hnew : (Link.along (parent.path ++ [nid]) false weight).nid = nid := by
          rw [hps.along_child]
        split
        · next hn =>
          have hc : (Link.along (parent.path ++ [nid]) false weight).check =
              .error (.invalidId nid) := by
            rw [Link.check, Link.fault?, hnew, if_pos hn]
          rw [bind_of_ok (show require (.ok _) t = .ok _ t from rfl), hc]
          rfl
        · next hn =>
          have hne : parent.nid ≠ nid := by
            rintro rfl
            rw [hpn, hp] at hl
            cases hl
          have hs := hps.sound_child (Int64.not_le.1 hn) hne false weight (Nat.not_lt.1 hd)
          have hmiss : t.row? (Link.along (parent.path ++ [nid]) false weight).nid = none := by
            rw [hnew]
            exact (Table.stored?_eq_none_iff h).1 hl
          rw [bind_of_ok (show require (.ok _) t = .ok _ t from rfl), bind_of_ok (require_check hs),
            bind_of_ok (write_of_ok (Table.insert_eq hs.valid hmiss)), hpn]
          rfl

/-- A new parent is stored and does not lie within the page. -/
theorem newParent_eq (h : t.Sound) (nid pid : PageId) :
    newParent nid pid t =
      if pid = 0 then .ok none t
      else match t.stored? pid with
        | none => .error (.pageMissing pid) t
        | some parent =>
          if parent.isWithin nid then .error (.invalidMove nid pid) t else .ok (some parent) t := by
  unfold newParent
  split
  · rfl
  · cases hs : t.stored? pid with
    | none => rw [bind_of_error (linkOf_of_missing h hs)]
    | some parent =>
      rw [bind_of_ok (linkOf_of_stored h hs)]
      simp only
      split <;> rfl

/-- The path above a page that is to lie under a parent, or why it cannot lie there. -/
def pathAbove (t : Table) (nid pid : PageId) : Except OutlineFault (List PageId) :=
  if pid = 0 then .ok []
  else match t.stored? pid with
    | none => .error (.pageMissing pid)
    | some parent =>
      if parent.isWithin nid then .error (.invalidMove nid pid)
      else if maxDepth < parent.depth + 1 then .error (.depthExceeded nid (parent.depth + 1))
      else .ok parent.path

/-- The flag that the parent a page leaves is left with. -/
def otherChildren (t : Table) (left : Link) : Bool :=
  decide (0 < t.countChildren left.bid left.pid (some left.nid))

theorem setHasChildren_zero (h : t.Sound) (value : Bool) : t.setHasChildren 0 value = t := by
  rw [Table.setHasChildren_eq h, h.stored?_zero]

theorem leaveParent_eq (h : t.Sound) (left : Link) :
    leaveParent left t = .ok () (t.setHasChildren left.pid (otherChildren t left)) := by
  unfold leaveParent
  split
  · rfl
  · next hp =>
    rw [Decidable.not_not.1 hp, setHasChildren_zero h]
    rfl

end Arrange
end Outline
