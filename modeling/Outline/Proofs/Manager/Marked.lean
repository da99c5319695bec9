import Outline.Proofs.Arrange.Marked
import Outline.Proofs.Manager.Linked

/-!
The marks of pages that have children, after any run.

A page without children is never marked. A page with children may lack its mark: one that is stored
anew has none, and pages that were left behind may name it already. Marks are right after every
action of a run exactly when no action of the run stores such a page.
-/
namespace Outline.Manager
set_option autoImplicit false

section Step

variable {t t' : Table} {c : Mutation} {touched : List PageId} {l : Link}

theorem Step.marksTrue (hstep : Step t c touched t') (h : t.Sound) (hmarks : t.MarksTrue) :
    t'.MarksTrue := by
  cases hstep with
  | nothing => exact hmarks
  | started positive missing =>
    exact hmarks.put_new (Link.sound_root positive false _) missing rfl
  | @placed parent nid weight positive missing stored fits =>
    have hs := sound_placedChild h positive missing stored fits weight
    have hchild := (h.of_stored? stored).1.along_child nid false weight
    have hput := (Table.MarksTrueBut.leave hmarks h parent.nid).put_new hs
      (by rw [hchild, missing]) rfl
    refine hput.setHasChildren (h.put hs) fun _ => ?_
    refine ⟨.along (parent.path ++ [nid]) false weight, ?_, by rw [hchild]⟩
    rw [Table.stored?_put hs, if_pos rfl]
  | weighed stored => exact hmarks.weigh h stored _
  | moved stored leaves rehung =>
    exact rehung.marksTrueBut h (h.of_stored? stored).1 stored rfl rfl hmarks
  | removed asked stored promoted => exact Arrange.removed_marksTrue h stored hmarks promoted

/-- A page that is stored anew has no mark, and pages that name it go on to do so. -/
theorem Step.new_unmarked (hstep : Step t c touched t') (h : t.Sound)
    (hmiss : t.stored? l.nid = none) (hput : t'.stored? l.nid = some l) :
    l.hasChildren = false ∧ ∀ k, t.stored? k.nid = some k →
      ∃ k', t'.stored? k'.nid = some k' ∧ k'.pid = k.pid := by
  -- Of the steps only those that put a page store one anew; the others end here.
  have hnone : ∀ {f : Link → Link}, t'.stored? l.nid ≠ (t.stored? l.nid).map f := by
    intro f heq
    rw [hput, hmiss, Option.map_none] at heq
    cases heq
  cases hstep with
  | nothing =>
    rw [hput] at hmiss
    cases hmiss
  | @started nid weight positive missing =>
    have hs : (Link.root nid weight).Sound := Link.sound_root positive false weight
    rw [Table.stored?_put hs] at hput
    split at hput
    · cases hput
      refine ⟨rfl, fun k hk => ⟨k, ?_, rfl⟩⟩
      have hne : k.nid ≠ (Link.root nid weight).nid := Table.ne_of_stored? hk missing
      rw [Table.stored?_put hs, if_neg hne, hk]
    · rw [hput] at hmiss
      cases hmiss
  | @placed parent nid weight positive missing stored fits =>
    have hs := sound_placedChild h positive missing stored fits weight
    have hchild := (h.of_stored? stored).1.along_child nid false weight
    generalize hnew : Link.along (parent.path ++ [nid]) false weight = new at hs hput hchild ⊢
    have hstored (y) := Table.stored?_setHasChildren (h.put hs) parent.nid y true
    have hnid : new.nid = nid := by rw [hchild]
    rw [hstored, Table.stored?_put hs] at hput
    split at hput
    · cases hput
      have hne : new.nid ≠ parent.nid := by
        rw [hnid]
        exact (Table.ne_of_stored? stored missing).symm
      refine ⟨by rw [Link.hasChildren_flagged, if_neg hne, hchild], fun k hk => ?_⟩
      refine ⟨k.flagged parent.nid true, ?_, k.pid_flagged parent.nid true⟩
      rw [Link.nid_flagged, hstored, Table.stored?_put hs,
        if_neg (by rw [hnid]; exact Table.ne_of_stored? hk missing), hk, Option.map_some]
    · rw [hmiss, Option.map_none] at hput
      cases hput
  | weighed stored => exact absurd (Table.stored?_weigh h stored _ l.nid) hnone
  | moved stored leaves rehung =>
    obtain ⟨flag, _, hstored⟩ := rehung.stored
    exact absurd (hstored l.nid) hnone
  | @removed old touched t₁ asked stored promoted =>
    have hgone := promoted.stored?_eq_none (x := l.nid) (by
      rw [Table.stored?_erase, hmiss, ite_self])
    rw [Table.stored?_setHasChildren (promoted.sound h.erase), hgone] at hput
    cases hput

/-- After a step that leaves marks right, no id was stored anew that was named already. -/
theorem Step.namesNoNew (hstep : Step t c touched t') (h : t.Sound) (hmarked : t'.Marked) :
    NamesNoNew t t' := by
  intro r hr hmiss q hq hqr
  have h' := hstep.sound h
  obtain ⟨l, hl, rfl⟩ := h'.mem_rows_iff.1 hr
  obtain ⟨k, hk, rfl⟩ := h.mem_rows_iff.1 hq
  obtain ⟨hflag, hkept⟩ := hstep.new_unmarked h ((Table.stored?_eq_none_iff h).2 hmiss) hl
  obtain ⟨k', hk', hkp⟩ := hkept k hk
  have hmark := ((Table.marked_iff h').1 hmarked l hl).2 ⟨k', hk', hkp.trans (Cell.int.inj hqr)⟩
  rw [hflag] at hmark
  cases hmark

end Step

/-- A manager with sound rows and true marks, outside a transaction. -/
structure Truthful (m : Manager) : Prop where
  ready : m.Ready
  marks : m.table.MarksTrue

theorem Truthful.act {m : Manager} (h : m.Truthful) (a : Action) : (m.act a).Truthful := by
  obtain ⟨_, _, hstep⟩ := h.ready.step a
  exact ⟨h.ready.act a, hstep.marksTrue h.ready.sound h.marks⟩

/-- An action that leaves marks right stores no id anew that was named already. -/
theorem Ready.storesUnnamed {m : Manager} (h : m.Ready) (a : Action)
    (hmarked : (m.act a).table.Marked) : StoresUnnamed m a := by
  obtain ⟨_, _, hstep⟩ := h.step a
  exact hstep.namesNoNew h.sound hmarked

theorem Ready.permitted_of_marked (as : List Action) :
    ∀ {m : Manager}, m.Ready → (∀ bs, bs <+: as → (m.run bs).table.Marked) →
      Permitted StoresUnnamed m as := by
  induction as with
  | nil => exact fun _ _ => trivial
  | cons a as ih =>
    intro m h hmarked
    refine ⟨h.storesUnnamed a (hmarked [a] (List.prefix_append [a] as)), ih (h.act a) ?_⟩
    intro bs hbs
    exact hmarked (a :: bs) (List.cons_prefix_cons.2 ⟨rfl, hbs⟩)

/-- After any run, a row that is marked as having children is named by a row as its parent. Rows
that are named are marked, and so marks are right after every action of a run, exactly when no
action of the run stores an id anew while a stored row names it. -/
theorem run_marked (content : Content) (settings : Settings) (as : List Action) :
    (∀ r ∈ ((blank content settings).run as).table.rows, r.hasChildren = Row.flag true →
      ∃ c ∈ ((blank content settings).run as).table.rows, c.pid = .int r.nid) ∧
    ((∀ bs, bs <+: as → ((blank content settings).run bs).table.Marked) ↔
      Permitted StoresUnnamed (blank content settings) as) := by
  refine ⟨?_, (ready_blank content settings).permitted_of_marked as, ?_⟩
  · have hm : ((blank content settings).run as).Truthful :=
      run_kept (fun _ a h => h.act a) as _
        ⟨ready_blank content settings, Table.marksTrue_empty⟩
    generalize (blank content settings).run as = m at hm ⊢
    have h := hm.ready.sound
    intro r hr hmark
    obtain ⟨p, hp, rfl⟩ := h.mem_rows_iff.1 hr
    exact h.named_iff.2 (hm.marks p hp (h.of_stored? hp).1.nid_ne_zero
      (Row.flag_eq_true_iff.1 hmark))
  · intro hrun bs hbs
    have hm : ((blank content settings).run bs).Tended :=
      run_induction (fun m a h hnew => h.act a hnew) bs _ (tended_blank content settings)
        (hrun.of_isPrefix hbs)
    exact hm.linked.marked hm.ready.sound

/-- An inner page is removed, and stored again where it was while its child still names it. -/
def putBack : List Action :=
  [.change (.addRoot 1 0), .change (.addChild 2 1 0), .change (.addChild 3 2 0),
    .change (.delete 2), .change (.addChild 2 1 0)]

/-- A page that is stored anew lacks the mark that its child asks for. -/
theorem run_unmarked : ¬ ∀ as : List Action, ((blank .empty {}).run as).table.Marked := by
  intro h
  have hrows : ((blank .empty {}).run putBack).table.rows =
      [.ofLink (.along [1] true 0), .ofLink (.along [1, 2] false 0),
        .ofLink (.along [1, 2, 3] false 0)] := by cbv
  have hmarked := h putBack
  unfold Table.Marked at hmarked
  rw [hrows] at hmarked
  exact absurd hmarked (by decide)

end Outline.Manager
