import Outline.Proofs.Arrange.Removing
import Outline.Proofs.Arrange.Verdict
import Outline.Proofs.Manager.Mutation

/-!
What a change does to sound rows.

`Step` lists all that a change can do, with the books it touches. A change that is refused does
nothing, and it is not refused for a fault of the store. Every law that changes keep is shown for
the steps alone.
-/
namespace Outline.Manager
set_option autoImplicit false

/-- What a change can do to a table, with the books it touches. Only a removal removes a page. -/
inductive Step (t : Table) (c : Mutation) : List PageId → Table → Prop where
  | nothing : Step t c [] t
  | started {nid : PageId} {weight : Int32} (positive : 0 < nid) (missing : t.stored? nid = none) :
      Step t c [nid] (t.put (.ofLink (.root nid weight)))
  | placed {parent : Link} {nid : PageId} {weight : Int32} (positive : 0 < nid)
      (missing : t.stored? nid = none) (stored : t.stored? parent.nid = some parent)
      (fits : parent.depth + 1 ≤ maxDepth) :
      Step t c [parent.bid] ((t.put
        (.ofLink (.along (parent.path ++ [nid]) false weight))).setHasChildren parent.nid true)
  | weighed {old : Link} {weight : Int32} (stored : t.stored? old.nid = some old) :
      Step t c [old.bid] (t.put (.ofLink { old with weight := weight }))
  | moved {old moved : Link} {pid : PageId} {t' : Table} (stored : t.stored? old.nid = some old)
      (leaves : pid ≠ old.pid) (rehung : Arrange.Rehung t old pid moved t') :
      Step t c (Arrange.touchedBy old moved) t'
  | removed {old : Link} {touched : List PageId} {t₁ : Table} (asked : c = .delete old.nid)
      (stored : t.stored? old.nid = some old)
      (promoted : Arrange.Promoted (t.erase old.nid) (Arrange.orphansOf t old) touched t₁) :
      Step t c (old.bid :: touched) (t₁.setHasChildren old.pid (Arrange.otherChildren t₁ old))

/-- A move that is not refused takes a step, whatever change it is part of. -/
theorem step_of_moveEnds {t t' : Table} {c : Mutation} {nid pid : PageId} {moved : Link}
    {touched : List PageId} (hends : Arrange.MoveEnds t nid pid (.ok (moved, touched)) t')
    (h : t.Sound) : Step t c touched t' := by
  cases hends with
  | weighed weight stored stays => exact .weighed (h.stored?_nid stored)
  | rehung stored leaves rehung => exact .moved (h.stored?_nid stored) leaves rehung

/-- The link of a page that is placed below a stored parent. -/
theorem sound_placedChild {t : Table} {parent : Link} {nid : PageId} (h : t.Sound)
    (positive : 0 < nid) (missing : t.stored? nid = none)
    (stored : t.stored? parent.nid = some parent) (fits : parent.depth + 1 ≤ maxDepth)
    (weight : Int32) : (Link.along (parent.path ++ [nid]) false weight).Sound :=
  (h.of_stored? stored).1.sound_child positive (Table.ne_of_stored? stored missing) false weight
    fits

/-- A refusal that is no fault of the store. A page that is said to be missing is not stored. -/
def Expected (t : Table) : OutlineFault → Prop
  | .storeUnavailable _ => False
  | .pageMissing nid => t.stored? nid = none
  | _ => True

/-- The manager after a change of its rows, with the touched books dropped from its cache. -/
def settle (m : Manager) (t : Table) (touched : List PageId) (events : List Event) : Manager :=
  { m with
    table := t
    cache := touched.foldl Cache.dropBook m.cache
    journal := m.journal ++ events }

section Performing

variable {m : Manager} {t : Table} {α β : Type} {work : TableWork α} {change : Change}
  {nid : PageId}

/-- A change whose work succeeds ends with the touched books dropped. -/
theorem settled_of_ok (change : Change) (nid : PageId) (books : α → List PageId) (result : α → β)
    {a : α} (hm : m.inTransaction = false) (hw : work m.table = .ok a t) :
    ∃ events, (do
      let a ← told change nid (atomically none work)
      forget (books a)
      return result a : Managed β) m = .ok (result a) (m.settle t (books a) events) := by
  have htold : told change nid (atomically none work) m =
      .ok a ({ m with table := t }.tell [changed change nid]) := by
    rw [told, atomically_of_ok hm hw]
  refine ⟨[changed change nid] ++ (books a).map Cache.dropped, ?_⟩
  rw [bind_of_ok htold, settle, ← List.append_assoc]
  rfl

theorem refused_of_error {refusal : OutlineFault} {next : α → Managed β}
    (hm : m.inTransaction = false) (hw : work m.table = .error refusal t) :
    (told change nid (atomically none work) >>= next) m =
      .error refusal (m.tell [refused change nid refusal]) := by
  have htold : told change nid (atomically none work) m =
      .error refusal (m.tell [refused change nid refusal]) := by
    rw [told, atomically_of_error hm hw]
  exact bind_of_error htold

end Performing

/-- What a change may do to a manager outside a transaction: be refused and tell about it, or take a
step. -/
def Proceeds (m : Manager) (c : Mutation) {α : Type} (operation : Managed α) : Prop :=
  (∃ refusal events, operation m = .error refusal (m.tell events) ∧ Expected m.table refusal) ∨
    ∃ a t touched events, operation m = .ok a (m.settle t touched events) ∧
      Step m.table c touched t

section Cases

variable {m : Manager} {c : Mutation}

theorem addRoot_proceeds (h : m.table.Sound) (hm : m.inTransaction = false) (nid : PageId)
    (weight : Int32) : Proceeds m c (addRoot nid weight) := by
  have hwork := Arrange.addRoot_eq h nid weight
  split at hwork
  · exact .inl ⟨_, _, refused_of_error hm hwork, trivial⟩
  · next hn =>
    split at hwork
    · exact .inl ⟨_, _, refused_of_error hm hwork, trivial⟩
    · next hs =>
      obtain ⟨events, hrun⟩ := settled_of_ok .save nid (fun _ => [nid])
        (fun _ => Link.root nid weight) hm hwork
      exact .inr ⟨_, _, _, events, hrun, .started (Int64.not_le.1 hn) (by simpa using hs)⟩

theorem addChild_proceeds (h : m.table.Sound) (hm : m.inTransaction = false) (nid pid : PageId)
    (weight : Int32) : Proceeds m c (addChild nid pid weight) := by
  have hwork := Arrange.addChild_eq h nid pid weight
  split at hwork
  · exact .inl ⟨_, _, refused_of_error hm hwork, trivial⟩
  · next hs =>
    cases hp : m.table.stored? pid with
    | none =>
      rw [hp] at hwork
      exact .inl ⟨_, _, refused_of_error hm hwork, hp⟩
    | some parent =>
      obtain ⟨hps, rfl⟩ := h.of_stored? hp
      rw [hp] at hwork
      simp only at hwork
      split at hwork
      · exact .inl ⟨_, _, refused_of_error hm hwork, trivial⟩
      · next hd =>
        split at hwork
        · exact .inl ⟨_, _, refused_of_error hm hwork, trivial⟩
        · next hn =>
          obtain ⟨events, hrun⟩ := settled_of_ok .save nid (fun l : Link => [l.bid])
            (fun l => l) hm hwork
          have hbid : (Link.along (parent.path ++ [nid]) false weight).bid = parent.bid := by
            rw [hps.along_child]
          rw [hbid] at hrun
          exact .inr ⟨_, _, _, events, hrun,
            .placed (Int64.not_le.1 hn) (by simpa using hs) hp (Nat.not_lt.1 hd)⟩

/-- A page that may not lie under a parent is refused for what is asked, not for what is stored. -/
theorem expected_of_pathAbove {t : Table} {nid pid : PageId} {refusal : OutlineFault}
    (hp : Arrange.pathAbove t nid pid = .error refusal) : Expected t refusal := by
  unfold Arrange.pathAbove at hp
  split at hp
  · cases hp
  · split at hp
    · next hs =>
      cases hp
      exact hs
    · split at hp
      · cases hp
        trivial
      · split at hp
        · cases hp
          trivial
        · cases hp

theorem expected_of_verdict {t : Table} {nid pid : PageId} {weight : Option Int32}
    {refusal : OutlineFault} (hv : Arrange.verdict t nid pid weight = .error refusal) :
    Expected t refusal := by
  unfold Arrange.verdict at hv
  split at hv
  · next hs =>
    cases hv
    exact hs
  · split at hv
    · cases hv
    · split at hv
      · next hp =>
        cases hv
        exact expected_of_pathAbove hp
      · simp only at hv
        split at hv
        · cases hv
          trivial
        · cases hv

/-- Outside a transaction a move is refused by its verdict, or settles what its work leaves. -/
theorem move_eq (h : m.table.Sound) (hm : m.inTransaction = false) (nid pid : PageId)
    (weight : Option Int32) :
    (∃ refusal events, Arrange.verdict m.table nid pid weight = .error refusal ∧
        move nid pid weight m = .error refusal (m.tell events)) ∨
      ∃ moved touched t events, Arrange.verdict m.table nid pid weight = .ok (moved, touched) ∧
        Arrange.MoveEnds m.table nid pid (.ok (moved, touched)) t ∧
        move nid pid weight m = .ok moved (m.settle t touched events) := by
  obtain ⟨t, hends, hwork⟩ := Arrange.move_ends h nid pid weight
  cases hv : Arrange.verdict m.table nid pid weight with
  | error refusal =>
    rw [hv] at hwork
    exact .inl ⟨refusal, _, rfl, refused_of_error hm hwork⟩
  | ok result =>
    rw [hv] at hends hwork
    obtain ⟨events, hrun⟩ := settled_of_ok .move nid (fun a : Link × List PageId => a.2)
      (fun a => a.1) hm hwork
    exact .inr ⟨result.1, result.2, t, events, rfl, hends, hrun⟩

theorem move_proceeds (h : m.table.Sound) (hm : m.inTransaction = false) (nid pid : PageId)
    (weight : Option Int32) : Proceeds m c (move nid pid weight) := by
  rcases move_eq h hm nid pid weight with ⟨refusal, events, hv, hrun⟩ |
    ⟨moved, touched, t, events, _, hends, hrun⟩
  · exact .inl ⟨refusal, events, hrun, expected_of_verdict hv⟩
  · exact .inr ⟨moved, t, touched, events, hrun, step_of_moveEnds hends h⟩

theorem delete_proceeds (h : m.table.Sound) (hm : m.inTransaction = false) (nid : PageId) :
    Proceeds m (.delete nid) (delete nid) := by
  cases hs : m.table.stored? nid with
  | none => exact .inl ⟨_, _, refused_of_error hm (Arrange.delete_of_missing h hs), hs⟩
  | some old =>
    obtain ⟨_, rfl⟩ := h.of_stored? hs
    obtain ⟨touched, t₁, hp, hdelete⟩ := Arrange.delete_of_stored h hs
    obtain ⟨events, hrun⟩ := settled_of_ok .delete old.nid (fun touched => touched) (fun _ => ())
      hm hdelete
    exact .inr ⟨_, _, _, events, hrun, .removed rfl hs hp⟩

/-- What is returned makes no difference to what a change may do. -/
theorem Proceeds.bind_pure {α β : Type} {operation : Managed α} {result : α → β}
    (h : Proceeds m c operation) : Proceeds m c (operation >>= fun a => pure (result a)) := by
  rcases h with ⟨refusal, events, hrun, hwhy⟩ | ⟨a, t, touched, events, hrun, hstep⟩
  · exact .inl ⟨refusal, events, bind_of_error hrun, hwhy⟩
  · exact .inr ⟨result a, t, touched, events, bind_of_ok hrun, hstep⟩

/-- A request for a book moves its page when that is stored, and otherwise places it. -/
theorem update_eq (h : m.table.Sound) {r : Request} {bid : PageId} (hbid : r.bid? = some bid) :
    update r m =
      ((if (m.table.stored? r.nid).isSome then move r.nid (r.parentIn bid) (some r.weight)
      else if r.parentIn bid = 0 then addRoot r.nid r.weight
      else addChild r.nid (r.parentIn bid) r.weight) >>= fun l => pure (some l)) m := by
  have hlook : look (·.link? r.nid) m = .ok (m.table.stored? r.nid) m := by
    rw [look, Table.link?_eq h]
  unfold update updateAgainst
  rw [hbid]
  simp only
  rw [bind_of_ok hlook]
  split
  · rfl
  · split <;> rfl

theorem update_proceeds (h : m.table.Sound) (hm : m.inTransaction = false) (r : Request) :
    Proceeds m c (update r) := by
  cases hbid : r.bid? with
  | none =>
    unfold update updateAgainst
    rw [hbid]
    exact .inr ⟨none, m.table, [], [], by simp [settle]; rfl, .nothing⟩
  | some bid =>
    unfold Proceeds
    rw [update_eq h hbid]
    split
    · exact (move_proceeds h hm _ _ _).bind_pure
    · split
      · exact (addRoot_proceeds h hm _ _).bind_pure
      · exact (addChild_proceeds h hm _ _ _).bind_pure

/-- A change of sound rows is refused for what is asked for, or takes a step. -/
theorem Mutation.proceeds (c : Mutation) (h : m.table.Sound) (hm : m.inTransaction = false) :
    Proceeds m c c.perform := by
  cases c with
  | addRoot nid weight => exact (addRoot_proceeds h hm nid weight).bind_pure
  | addChild nid pid weight => exact (addChild_proceeds h hm nid pid weight).bind_pure
  | move nid pid weight => exact (move_proceeds h hm nid pid weight).bind_pure
  | update request => exact update_proceeds h hm request
  | delete nid => exact (delete_proceeds h hm nid).bind_pure

end Cases

theorem Step.sound {t t' : Table} {c : Mutation} {touched : List PageId}
    (hstep : Step t c touched t') (h : t.Sound) : t'.Sound := by
  cases hstep with
  | nothing => exact h
  | started positive missing => exact h.put (Link.sound_root positive false _)
  | placed positive missing stored fits =>
    exact (h.put (sound_placedChild h positive missing stored fits _)).setHasChildren _ _
  | weighed stored => exact h.put ((h.of_stored? stored).1.withWeight _)
  | moved stored leaves rehung => exact rehung.sound
  | removed asked stored promoted => exact (promoted.sound h.erase).setHasChildren _ _

end Outline.Manager
