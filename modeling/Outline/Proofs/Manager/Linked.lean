import Outline.Proofs.Arrange.Linked
import Outline.Proofs.Manager.Run

/-!
Runs that keep a table linked: parents and children agree on books, depths, chains and flags, as
long as no id is stored anew while a page that was left behind still names it.
-/
namespace Outline.Manager
set_option autoImplicit false

/-- No row of the second table is for an id that the first one has no row for, but names. -/
def NamesNoNew (t t' : Table) : Prop :=
  ∀ r ∈ t'.rows, t.row? r.nid = none → ∀ c ∈ t.rows, c.pid ≠ .int r.nid

instance (t t' : Table) : Decidable (NamesNoNew t t') :=
  inferInstanceAs (Decidable (∀ r ∈ t'.rows, _))

/-- An action that stores no id anew while a stored row names it. -/
def StoresUnnamed (m : Manager) (a : Action) : Prop := NamesNoNew m.table (m.act a).table

instance (m : Manager) (a : Action) : Decidable (StoresUnnamed m a) :=
  inferInstanceAs (Decidable (NamesNoNew _ _))

section Step

variable {t t' : Table} {c : Mutation} {touched : List PageId}

/-- A page that is stored anew is not named by the pages stored before. -/
theorem NamesNoNew.pid_ne (hnew : NamesNoNew t t') (h : t.Sound) (h' : t'.Sound) {nid : PageId}
    (hmiss : t.stored? nid = none) (hput : (t'.stored? nid).isSome) :
    ∀ k, t.stored? k.nid = some k → k.pid ≠ nid := by
  intro k hk hkp
  obtain ⟨l, hl⟩ := Option.isSome_iff_exists.1 hput
  obtain ⟨_, rfl⟩ := h'.of_stored? hl
  apply hnew (.ofLink l) (h'.mem_rows_iff.2 ⟨l, hl, rfl⟩) ((Table.stored?_eq_none_iff h).1 hmiss)
    (.ofLink k) (h.mem_rows_iff.2 ⟨k, hk, rfl⟩)
  exact congrArg Cell.int hkp

/-- A step keeps a table linked when it stores no id that is named already. -/
theorem Step.linked (hstep : Step t c touched t') (h : t.Sound) (hlink : t.Linked)
    (hnew : NamesNoNew t t') : t'.Linked := by
  have h' := hstep.sound h
  cases hstep with
  | nothing => exact hlink
  | @started nid weight positive missing =>
    have hs : (Link.root nid weight).Sound := Link.sound_root positive false weight
    refine hlink.put_new h hs missing rfl (hnew.pid_ne h h' missing ?_) ?_
    · rw [Table.stored?_put hs, if_pos rfl]
      rfl
    · intro p hp
      exact absurd (h.of_stored? hp).2 (h.of_stored? hp).1.nid_ne_zero
  | @placed parent nid weight positive missing stored fits =>
    have hps := (h.of_stored? stored).1
    have hs := sound_placedChild h positive missing stored fits weight
    have hnid : (Link.along (parent.path ++ [nid]) false weight).nid = nid := by
      rw [hps.along_child]
    have hpid : (Link.along (parent.path ++ [nid]) false weight).pid = parent.nid := by
      rw [hps.along_child]
    have hput : (t.put (.ofLink (.along (parent.path ++ [nid]) false weight))).LinkedBut
        parent.nid := by
      rw [← hpid]
      refine hlink.put_new h hs (by rw [hnid, missing]) rfl ?_ ?_
      · rw [hnid]
        refine hnew.pid_ne h h' missing ?_
        rw [Table.stored?_setHasChildren (h.put hs), Table.stored?_put hs, hnid, if_pos rfl]
        rfl
      · intro p hp
        rw [hpid, stored] at hp
        cases hp
        rw [hnid, Link.path_along]
        rw [List.length_append, hps.length_path]
        exact fits
    refine hput.setHasChildren (h.put hs) fun p hp => ?_
    refine ⟨fun _ => ⟨.along (parent.path ++ [nid]) false weight, ?_, hpid⟩, fun _ => rfl⟩
    rw [Table.stored?_put hs, if_pos rfl]
  | weighed stored => exact hlink.weigh h stored _
  | moved stored leaves rehung => exact rehung.linkedBut h stored hlink
  | removed asked stored promoted => exact Arrange.removed_linked h stored hlink promoted

end Step

/-- A manager with sound and linked rows, outside a transaction. -/
structure Tended (m : Manager) : Prop where
  ready : m.Ready
  linked : m.table.Linked

theorem Tended.act {m : Manager} (h : m.Tended) (a : Action) (hnew : StoresUnnamed m a) :
    (m.act a).Tended := by
  obtain ⟨_, _, hstep⟩ := h.ready.step a
  exact ⟨h.ready.act a, hstep.linked h.ready.sound h.linked hnew⟩

theorem tended_blank (content : Content) (settings : Settings) : (blank content settings).Tended :=
  ⟨ready_blank content settings, Table.linked_empty⟩

/-- After any run that stores no id anew while a stored row names it, every row whose parent is
stored belongs to its parent's book, lies one level below it, and has its parent's ids and then its
own for a chain; and a page is marked as having children exactly when a row names it. -/
theorem run_linked (content : Content) (settings : Settings) (as : List Action)
    (hrun : Permitted StoresUnnamed (blank content settings) as) :
    ∀ r ∈ ((blank content settings).run as).table.rows, ∃ l, r = .ofLink l ∧ r.toLink = .ok l ∧
      (∀ q ∈ ((blank content settings).run as).table.rows, q.nid = l.pid →
        ∃ p, q = .ofLink p ∧ l.bid = p.bid ∧ l.depth = p.depth + 1 ∧ l.path = p.path ++ [l.nid]) ∧
      (l.hasChildren = true ↔
        ∃ c ∈ ((blank content settings).run as).table.rows, c.pid = .int l.nid) := by
  have hm : ((blank content settings).run as).Tended :=
    run_induction (fun m a h hnew => h.act a hnew) as _ (tended_blank content settings) hrun
  generalize (blank content settings).run as = m at hm ⊢
  have h := hm.ready.sound
  intro r hr
  obtain ⟨l, hl, rfl⟩ := h.mem_rows_iff.1 hr
  have hls := (h.of_stored? hl).1
  refine ⟨l, rfl, Row.toLink_ofLink hls.valid, ?_, ?_⟩
  · intro q hq hqn
    obtain ⟨p, hp, rfl⟩ := h.mem_rows_iff.1 hq
    have hps := (h.of_stored? hp).1
    have hplace := hm.linked.place l p hl (by rw [← hqn]; exact hp)
    refine ⟨p, rfl, hls.bid_of_path hps hplace, ?_, hplace⟩
    rw [← hls.length_path, hplace, List.length_append, hps.length_path]
    rfl
  · rw [hm.linked.flag l hl hls.nid_ne_zero]
    constructor
    · rintro ⟨k, hk, hkp⟩
      exact ⟨.ofLink k, h.mem_rows_iff.2 ⟨k, hk, rfl⟩, congrArg Cell.int hkp⟩
    · rintro ⟨c, hc, hcp⟩
      obtain ⟨k, hk, rfl⟩ := h.mem_rows_iff.1 hc
      exact ⟨k, hk, Cell.int.inj hcp⟩

/-- An inner page is removed, and a page above the hole is moved below another book's root. -/
def holeMoved : List Action :=
  [.change (.addRoot 1 0), .change (.addChild 2 1 0), .change (.addChild 3 2 0),
    .change (.addChild 4 3 0), .change (.delete 3), .change (.addRoot 5 0),
    .change (.move 2 5 none)]

/-- The rows this leads to: the page that was left behind below the hole has come along. -/
theorem rows_holeMoved : ((blank .empty {}).run holeMoved).table.rows =
    [.ofLink (.along [1] false 0), .ofLink (.along [5, 2] false 0),
      .ofLink (.along [5, 2, 3, 4] false 0), .ofLink (.along [5] true 0)] := by
  cbv

/-- The moved page lies below its new parent, and is not marked, since no row names it any more. -/
theorem run_linked_holeMoved :
    Permitted StoresUnnamed (blank .empty {}) holeMoved ∧
    ∃ l p, Row.ofLink l ∈ ((blank .empty {}).run holeMoved).table.rows ∧
      Row.ofLink p ∈ ((blank .empty {}).run holeMoved).table.rows ∧ l.nid = 2 ∧ p.nid = 5 ∧
      l.bid = p.bid ∧ l.path = p.path ++ [l.nid] ∧
      (l.hasChildren = true ↔
        ∃ c ∈ ((blank .empty {}).run holeMoved).table.rows, c.pid = .int l.nid) := by
  have hrun : Permitted StoresUnnamed (blank .empty {}) holeMoved := by decide_cbv
  have hrows := run_linked .empty {} holeMoved hrun
  have hmoved : Row.ofLink (.along [5, 2] false 0) ∈
      ((blank .empty {}).run holeMoved).table.rows := by
    rw [rows_holeMoved]
    decide
  have hroot : Row.ofLink (.along [5] true 0) ∈ ((blank .empty {}).run holeMoved).table.rows := by
    rw [rows_holeMoved]
    decide
  obtain ⟨l, hl, _, hplace, hflag⟩ := hrows _ hmoved
  have hnid : l.nid = 2 := congrArg Row.nid hl.symm
  have hpid : l.pid = 5 := Cell.int.inj (congrArg Row.pid hl.symm)
  obtain ⟨p, hp, hbid, _, hpath⟩ := hplace _ hroot hpid.symm
  refine ⟨hrun, l, p, hl ▸ hmoved, hp ▸ hroot, hnid, congrArg Row.nid hp.symm, hbid, hpath, hflag⟩

end Outline.Manager
