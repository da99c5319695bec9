import Outline.Proofs.Manager.Faithful
import Outline.Proofs.Manager.Run

/-!
Runs in which the cache makes no difference: every read tells what it would tell without one.

No change of such a run may remove a page from above others, unless it is a book root, and no two
payloads of the run may have one digest.
-/
namespace Outline.Manager
set_option autoImplicit false

/-- The payload that asking for a forest puts into the cache, if it does. -/
def Wanted.payloads (m : Manager) : Wanted → List Bytes
  | .book _ _ _ => []
  | .below l =>
    match (Wanted.below l).found? m with
    | some _ => []
    | none => [((Wanted.below l).fresh m.table).encode]

/-- The payload that an action puts into the cache, if it does. -/
def Action.payloads (m : Manager) : Action → List Bytes
  | .read r => ((r.wanted m.table).map (Wanted.payloads m)).getD []
  | _ => []

/-- The payloads that a run puts into the cache. -/
def payloads : Manager → List Action → List Bytes
  | _, [] => []
  | m, a :: as => a.payloads m ++ payloads (m.act a) as

/-- An action that removes no page from above others, other than a book root, and asks for no limit
of zero. -/
def Careful (m : Manager) : Action → Prop
  | .change c => c.LeavesNone m.table
  | .read r => r.AsksForLevels
  | .learn _ => True

instance (m : Manager) : ∀ a : Action, Decidable (Careful m a)
  | .change c => inferInstanceAs (Decidable (c.LeavesNone m.table))
  | .read r => inferInstanceAs (Decidable r.AsksForLevels)
  | .learn _ => isTrue trivial

/-- A manager with whole rows, outside a transaction, and with a cache that tells the same. -/
structure Trusted (ps : List Bytes) (m : Manager) : Prop where
  ready : m.Ready
  whole : m.table.Whole
  faithful : Faithful m.settings.locale m.table ps m.cache

section Trusted

variable {m : Manager} {ps : List Bytes} {w : Wanted}

/-- A read asks for a forest around a stored page, or below one. -/
theorem Read.wanted_proper (h : m.table.Sound) {r : Read} (hr : r.AsksForLevels)
    (hw : r.wanted m.table = some w) : w.Proper m.table := by
  have hfocus : ∀ {l}, m.table.stored? l.nid = some l →
      ∀ k ∈ some l, m.table.stored? k.nid = some k := by
    rintro l hl k ⟨⟩
    exact hl
  have hnone : ∀ k ∈ (none : Option Link), m.table.stored? k.nid = some k := by
    rintro k ⟨⟩
  cases r with
  | forest bid focus d viewer =>
    cases focus with
    | none =>
      cases hw
      exact ⟨hnone, hr⟩
    | some nid =>
      obtain ⟨l, hl, rfl⟩ := Option.map_eq_some_iff.1 hw
      exact ⟨hfocus (h.stored?_nid hl), hr⟩
  | around nid viewer =>
    obtain ⟨l, hl, rfl⟩ := Option.map_eq_some_iff.1 hw
    exact ⟨hfocus (h.stored?_nid hl), by simp⟩
  | subtree nid viewer =>
    obtain ⟨l, hl, rfl⟩ := Option.map_eq_some_iff.1 hw
    exact h.stored?_nid hl
  | contents bid d exclude viewer =>
    cases hw
    exact ⟨hnone, by simp⟩
  | _ => cases hw

theorem Trusted.found (h : m.Trusted ps) (hfree : CollisionFree ps) (hw : w.Proper m.table) :
    (w.found? m).getD (w.fresh m.table) = w.fresh m.table := by
  cases hf : w.found? m with
  | none => rfl
  | some f =>
    rw [Option.getD_some]
    cases w with
    | book bid focus d => exact h.faithful.forestAt h.whole hw.1 hw.2 hf
    | below l => exact h.faithful.subtreeOf h.whole.sound hfree hw hf

theorem Trusted.cacheAfter (h : m.Trusted ps) (hw : w.Proper m.table)
    (hps : ∀ p ∈ w.payloads m, p ∈ ps) :
    Faithful m.settings.locale m.table ps (w.cacheAfter m) := by
  unfold Wanted.cacheAfter
  cases hf : w.found? m with
  | some f => exact h.faithful
  | none =>
    cases w with
    | book bid focus d =>
      have hput := h.faithful.putForest bid ((focus.map Link.nid).getD 0) hw.2
      rw [← fresh_eq_around h.whole hw.1] at hput
      exact hput
    | below l =>
      refine h.faithful.putSubtree hw (hps _ ?_)
      simp [Wanted.payloads, hf]

theorem Trusted.act (h : m.Trusted ps) (a : Action) (ha : Careful m a)
    (hps : ∀ p ∈ a.payloads m, p ∈ ps) : (m.act a).Trusted ps := by
  have hready := h.ready.act a
  have hacted := h.ready.acted a
  generalize m.act a = m' at hacted hready ⊢
  cases hacted with
  | learnt content => exact ⟨hready, h.whole, h.faithful⟩
  | refused c events => exact ⟨hready, h.whole, h.faithful⟩
  | changed events step =>
    refine ⟨hready, step.whole h.whole ha, ?_⟩
    refine h.faithful.dropBooks h.whole.sound hready.sound ?_
    intro b hb
    exact step.agreeOn h.whole.sound h.whole.linked hb
  | read r events =>
    refine ⟨hready, h.whole, ?_⟩
    cases hw : r.wanted m.table with
    | none => exact h.faithful
    | some w =>
      rw [Action.payloads, hw] at hps
      exact h.cacheAfter (Read.wanted_proper h.whole.sound ha hw) hps

theorem trusted_blank (content : Content) (settings : Settings) (ps : List Bytes) :
    (blank content settings).Trusted ps :=
  ⟨ready_blank content settings, Table.whole_empty, faithful_empty _ _ _⟩

theorem Trusted.read (h : m.Trusted ps) (hfree : CollisionFree ps) (r : Read)
    (hr : r.AsksForLevels) :
    ∃ answer m₁ m₂, r.perform m = .ok answer m₁ ∧
      r.perform { m with cache := .empty } = .ok answer m₂ := by
  obtain ⟨told, htold⟩ := r.tells h.whole.sound
  obtain ⟨events, hrun⟩ := htold m.cache
  obtain ⟨events', hrun'⟩ := htold .empty
  have hsame : (r.wanted m.table).map (fun w => (w.found? m).getD (w.fresh m.table)) =
      (r.wanted m.table).map fun w =>
        (w.found? { m with cache := .empty }).getD (w.fresh m.table) := by
    apply Option.map_congr
    intro w hw
    have hempty : w.found? { m with cache := .empty } = none := by cases w <;> rfl
    rw [h.found hfree (Read.wanted_proper h.whole.sound hr hw), hempty, Option.getD_none]
  rw [← hsame] at hrun'
  exact ⟨_, _, _, hrun, hrun'⟩

end Trusted

theorem permitted_careful {ps : List Bytes} (as : List Action) :
    ∀ m, Permitted Careful m as → (∀ p ∈ payloads m as, p ∈ ps) →
      Permitted (fun m a => Careful m a ∧ ∀ p ∈ a.payloads m, p ∈ ps) m as := by
  induction as with
  | nil => intro m _ _; trivial
  | cons a as ih =>
    intro m hm hps
    refine ⟨⟨hm.1, fun p hp => hps p (List.mem_append_left _ hp)⟩, ih _ hm.2 ?_⟩
    intro p hp
    exact hps p (List.mem_append_right _ hp)

/-- After any run that removes no page from above others, unless it is a book root, and asks for no
limit of zero, a read tells what it would tell over the same rows with an empty cache; provided that
the payloads that the run stored differ in their digests. -/
theorem run_faithful (content : Content) (settings : Settings) (as : List Action) (r : Read)
    (hrun : Permitted Careful (blank content settings) as)
    (hfree : CollisionFree (payloads (blank content settings) as)) (hr : r.AsksForLevels) :
    ∃ answer m₁ m₂, r.perform ((blank content settings).run as) = .ok answer m₁ ∧
      r.perform { (blank content settings).run as with cache := .empty } = .ok answer m₂ := by
  have htrusted : ((blank content settings).run as).Trusted
      (payloads (blank content settings) as) := by
    have hcareful := permitted_careful as _ hrun fun _ hp => hp
    exact run_induction (fun m a h ha => h.act a ha.1 ha.2) as _ (trusted_blank content settings _)
      hcareful
  exact htrusted.read hfree r hr

/-- One forest is one payload at most. -/
theorem collisionFree_payloads (m : Manager) (a : Action) : CollisionFree (a.payloads m) := by
  have hwanted : ∀ w : Wanted, CollisionFree (w.payloads m) := by
    intro w
    unfold Wanted.payloads
    split
    · rintro p ⟨⟩
    · split
      · rintro p ⟨⟩
      · intro p hp q hq _
        rw [List.mem_singleton.1 hp, List.mem_singleton.1 hq]
  cases a with
  | read r =>
    rw [Action.payloads]
    cases r.wanted m.table with
    | none => rintro p ⟨⟩
    | some w => exact hwanted w
  | _ => rintro p ⟨⟩

theorem payloads_change (m : Manager) (c : Mutation) : Action.payloads m (.change c) = [] := rfl

/-- The forest of a book is not kept under its digest. -/
theorem payloads_forest (m : Manager) (bid : PageId) (focus : Option PageId) (d : Option Nat)
    (viewer : Viewer) : Action.payloads m (.read (.forest bid focus d viewer)) = [] := by
  cases focus with
  | none => rfl
  | some nid =>
    rw [Action.payloads, Read.wanted]
    cases m.table.stored? nid <;> rfl

/-- Three pages that everyone may see. -/
def threePages : Content := ⟨[(1, ⟨"One", true⟩), (2, ⟨"Two", true⟩), (3, ⟨"Three", true⟩)]⟩

/-- A book is read around a page and then loses its root, and the page, which is a root now, is read
and then placed in another book. -/
def readAndMoved : List Action :=
  [.change (.addRoot 1 0), .change (.addChild 2 1 0), .read (.forest 1 (some 2) none .everyone),
    .change (.delete 1), .read (.subtree 2 .everyone), .change (.addRoot 3 0),
    .change (.move 2 3 none)]

/-- Read around the same page again, the first book is as it is now. -/
theorem run_faithful_readAndMoved :
    (Permitted Careful (blank threePages {}) readAndMoved ∧
      CollisionFree (payloads (blank threePages {}) readAndMoved) ∧
      (Read.forest 1 (some 2) none .everyone).AsksForLevels) ∧
    ∃ answer m₁ m₂,
      (Read.forest 1 (some 2) none .everyone).perform ((blank threePages {}).run readAndMoved) =
        .ok answer m₁ ∧
      (Read.forest 1 (some 2) none .everyone).perform
        { (blank threePages {}).run readAndMoved with cache := .empty } = .ok answer m₂ := by
  have hroot : Careful ((blank threePages {}).run (readAndMoved.take 3)) (.change (.delete 1)) := by
    have hready := (ready_blank threePages {}).run (readAndMoved.take 2)
    have htable := hready.table_read (.forest 1 (some 2) none .everyone)
    have hclean : Mutation.LeavesNone ((blank threePages {}).run (readAndMoved.take 2)).table
        (.delete 1) := by decide_cbv
    rw [← htable] at hclean
    exact hclean
  have hrun : Permitted Careful (blank threePages {}) readAndMoved :=
    ⟨trivial, trivial, by decide, hroot, trivial, trivial, trivial, trivial⟩
  have hfree : CollisionFree (payloads (blank threePages {}) readAndMoved) := by
    have hone := collisionFree_payloads ((blank threePages {}).run (readAndMoved.take 4))
      (.read (.subtree 2 .everyone))
    rw [readAndMoved]
    simp only [payloads, payloads_forest, payloads_change, List.nil_append, List.append_nil]
    exact hone
  have hlevels : (Read.forest 1 (some 2) none .everyone).AsksForLevels := by decide
  exact ⟨⟨hrun, hfree, hlevels⟩, run_faithful threePages {} readAndMoved _ hrun hfree hlevels⟩

end Outline.Manager
