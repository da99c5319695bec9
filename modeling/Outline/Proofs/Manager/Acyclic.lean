import Outline.Proofs.Arrange.Charted
import Outline.Proofs.Manager.Run

/-!
Runs in which no page gets above itself.

A page that is moved is refused a parent below it. A page that is stored anew is not: when its id is
still in the chain of a page that was left behind, it can be placed below that page. As long as an id
that stored chains hold is stored anew only where they hold it, no chain holds an id twice, and the
way up from a page never leads back to it.
-/
namespace Outline.Manager
set_option autoImplicit false

/-- A page that only the second table has a row for lies where the chains of the first one hold it,
if any of them does. -/
def NewInPlace (t t' : Table) : Prop :=
  ∀ r ∈ t'.rows, t.row? r.nid = none → ∀ l ∈ r.link?, ∀ q ∈ t.rows, ∀ k ∈ q.link?,
    l.nid ∈ k.path → l.path <+: k.path

instance (t t' : Table) : Decidable (NewInPlace t t') :=
  inferInstanceAs (Decidable (∀ r ∈ t'.rows, _))

/-- An action that stores no id anew but where the stored chains that hold it have it. -/
def StoresInPlace (m : Manager) (a : Action) : Prop := NewInPlace m.table (m.act a).table

instance (m : Manager) (a : Action) : Decidable (StoresInPlace m a) :=
  inferInstanceAs (Decidable (NewInPlace _ _))

section Step

variable {t t' : Table} {c : Mutation} {touched : List PageId} {l : Link}

theorem NewInPlace.path_prefix (hnew : NewInPlace t t') (h : t.Sound) (h' : t'.Sound)
    (hmiss : t.stored? l.nid = none) (hput : t'.stored? l.nid = some l) :
    ∀ k, t.stored? k.nid = some k → l.nid ∈ k.path → l.path <+: k.path := by
  intro k hk hmem
  obtain ⟨hrow, hread⟩ := h'.row_mem hput
  obtain ⟨hkrow, hkread⟩ := h.row_mem hk
  exact hnew _ hrow ((Table.stored?_eq_none_iff h).1 hmiss) l hread _ hkrow k hkread hmem

/-- A step keeps a table charted when what it stores anew is in place. -/
theorem Step.charted (hstep : Step t c touched t') (h : t.Sound) (hc : t.Charted)
    (hnew : NewInPlace t t') : t'.Charted := by
  have h' := hstep.sound h
  cases hstep with
  | nothing => exact hc
  | @started nid weight positive missing =>
    have hs : (Link.root nid weight).Sound := Link.sound_root positive false weight
    refine hc.put_new hs rfl (.inl rfl) (hnew.path_prefix h h' missing ?_)
    rw [Table.stored?_put hs, if_pos rfl]
  | @placed parent nid weight positive missing stored fits =>
    have hps := (h.of_stored? stored).1
    have hs := sound_placedChild h positive missing stored fits weight
    generalize hl : Link.along (parent.path ++ [nid]) false weight = l at hs h' hnew ⊢
    have hnid : l.nid = nid := by rw [← hl, hps.along_child]
    have hpath : l.path = parent.path ++ [l.nid] := by
      rw [hnid, ← hl, Link.path_along]
      rw [List.length_append, hps.length_path]
      exact fits
    -- The parent is marked after the page is put, which leaves the paths alone.
    have hput : ((t.put (.ofLink l)).setHasChildren parent.nid true).stored?
        (l.flagged parent.nid true).nid = some (l.flagged parent.nid true) := by
      rw [Table.stored?_setHasChildren (h.put hs), Table.stored?_put hs, Link.nid_flagged,
        if_pos rfl, Option.map_some]
    have hplace := hnew.path_prefix h h' (by rw [Link.nid_flagged, hnid, missing]) hput
    rw [Link.nid_flagged, Link.path_flagged] at hplace
    exact (hc.put_new hs hpath (.inr ⟨parent, stored, rfl⟩) hplace).setHasChildren (h.put hs) _ _
  | weighed stored => exact hc.weigh h stored _
  | moved stored leaves rehung => exact rehung.charted h stored hc
  | removed asked stored promoted => exact Arrange.removed_charted h stored hc promoted

end Step

/-- A manager with sound and charted rows, outside a transaction. -/
structure Surveyed (m : Manager) : Prop where
  ready : m.Ready
  charted : m.table.Charted

theorem Surveyed.act {m : Manager} (h : m.Surveyed) (a : Action) (hnew : StoresInPlace m a) :
    (m.act a).Surveyed := by
  obtain ⟨_, _, hstep⟩ := h.ready.step a
  exact ⟨h.ready.act a, hstep.charted h.ready.sound h.charted hnew⟩

theorem surveyed_blank (content : Content) (settings : Settings) :
    (blank content settings).Surveyed :=
  ⟨ready_blank content settings, Table.charted_empty⟩

/-- After any run that stores an id anew, if stored chains hold it, only where they hold it, the way
up from a page to its parent, and on through stored pages, never leads back to the page, and no row
holds an id twice down to its own level. -/
theorem run_acyclic (content : Content) (settings : Settings) (as : List Action)
    (hrun : Permitted StoresInPlace (blank content settings) as) :
    (∀ nid k, ((blank content settings).run as).table.climb (k + 1) nid ≠ some nid) ∧
    ∀ r ∈ ((blank content settings).run as).table.rows, ∃ l, r = .ofLink l ∧ r.toLink = .ok l ∧
      l.path.Nodup := by
  have hm : ((blank content settings).run as).Surveyed :=
    run_induction (fun m a h hnew => h.act a hnew) as _ (surveyed_blank content settings) hrun
  generalize (blank content settings).run as = m at hm ⊢
  have h := hm.ready.sound
  refine ⟨fun nid k => hm.charted.climb_ne h k nid, fun r hr => ?_⟩
  obtain ⟨l, hl, rfl⟩ := h.mem_rows_iff.1 hr
  obtain ⟨route, hroute⟩ := hm.charted
  exact ⟨l, rfl, Row.toLink_ofLink (h.of_stored? hl).1.valid, (hroute l hl).nodup⟩

/-- An inner page is removed and comes back to its place above the page that was left behind; then
the two change places. -/
def placedAgain : List Action :=
  [.change (.addRoot 1 0), .change (.addChild 2 1 0), .change (.addChild 3 2 0),
    .change (.delete 2), .change (.addChild 2 1 0), .change (.move 3 1 none),
    .change (.move 2 3 none)]

/-- The page that was stored anew lies below the one that was left behind, and not above it. -/
theorem run_acyclic_placedAgain :
    Permitted StoresInPlace (blank .empty {}) placedAgain ∧
    Row.ofLink (.along [1, 3, 2] false 0) ∈ ((blank .empty {}).run placedAgain).table.rows ∧
    (∃ l, Row.ofLink (.along [1, 3, 2] false 0) = .ofLink l ∧ l.path.Nodup) ∧
    ∀ k, ((blank .empty {}).run placedAgain).table.climb (k + 1) 2 ≠ some 2 := by
  have hrun : Permitted StoresInPlace (blank .empty {}) placedAgain := by decide +kernel
  obtain ⟨hclimb, hrows⟩ := run_acyclic .empty {} placedAgain hrun
  have hmem : Row.ofLink (.along [1, 3, 2] false 0) ∈
      ((blank .empty {}).run placedAgain).table.rows := by
    rw [← List.contains_iff_mem]
    cbv
  obtain ⟨l, hl, _, hnodup⟩ := hrows _ hmem
  exact ⟨hrun, hmem, ⟨l, hl, hnodup⟩, hclimb 2⟩

/-- An inner page is removed, and its id is placed below the page that was left behind. -/
def placedBelowItself : List Mutation :=
  [.addRoot 1 0, .addChild 2 1 0, .addChild 3 2 0, .delete 2, .addChild 2 3 0]

/-- Without the condition a page gets above itself. -/
theorem run_cyclic : ¬ ∀ cs : List Mutation,
    (∀ nid k, ((blank .empty {}).run (cs.map .change)).table.climb (k + 1) nid ≠ some nid) ∧
    ∀ r ∈ ((blank .empty {}).run (cs.map .change)).table.rows,
      ∃ l, r = .ofLink l ∧ l.path.Nodup := by
  intro h
  refine (h placedBelowItself).1 2 1 ?_
  cbv

end Outline.Manager
