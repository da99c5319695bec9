import Mathlib
import Outline.Manager.Mutate
import Outline.Proofs.Arrange.Steps

/-!
The changes of an outline as data, and what a refused one leaves behind: the rows and the cache it
found, whatever rows these were, and whether it was refused for what was asked, because no transaction
could be started, or in the end, because the rows could not be kept.
-/
namespace Outline.Manager
set_option autoImplicit false

/-- A change of the outline, with all that is asked for. -/
inductive Mutation where
  | addRoot (nid : PageId) (weight : Int32)
  | addChild (nid pid : PageId) (weight : Int32)
  | move (nid pid : PageId) (weight : Option Int32)
  | update (request : Request)
  | delete (nid : PageId)
  deriving DecidableEq

/-- Makes a change, which may meet a hindrance. The new link of the page is returned if it has
one. -/
def Mutation.performAgainst (hindrance : Option Hindrance) : Mutation → Managed (Option Link)
  | .addRoot nid weight => return some (← addRootAgainst hindrance nid weight)
  | .addChild nid pid weight => return some (← addChildAgainst hindrance nid pid weight)
  | .move nid pid weight => return some (← moveAgainst hindrance nid pid weight)
  | .update request => updateAgainst hindrance request
  | .delete nid => do
    deleteAgainst hindrance nid
    return none

/-- Makes a change that meets no hindrance. -/
def Mutation.perform (c : Mutation) : Managed (Option Link) := c.performAgainst none

/-- An operation that leaves the rows and the cache as they are when it is refused. -/
def Unharmful {α : Type} (operation : Managed α) : Prop :=
  ∀ m refusal m', operation m = .error refusal m' → m'.table = m.table ∧ m'.cache = m.cache

section Unharmful

variable {α β : Type} {operation : Managed α} {next : α → Managed β}

theorem unharmful_pure (a : α) : Unharmful (pure a : Managed α) := by
  intro m refusal m' h
  cases h

theorem unharmful_look (f : Table → Except StoreFault α) : Unharmful (look f) := by
  intro m refusal m' h
  unfold look at h
  cases hf : f m.table with
  | ok a => rw [hf] at h; cases h
  | error fault =>
    rw [hf] at h
    cases h
    exact ⟨rfl, rfl⟩

theorem state_of_look {f : Table → Except StoreFault α} {m s : Manager} {a : α}
    (h : look f m = .ok a s) : m = s := by
  unfold look at h
  cases hf : f m.table with
  | ok b => rw [hf] at h; cases h; rfl
  | error fault => rw [hf] at h; cases h

section Transaction

variable {ε : Type} {ofFault : StoreFault → ε} {operation : EStateM ε Manager α} {m s : Manager}
  {hindrance : Option Hindrance} {refusal : ε}

theorem transactionAgainst_of_inside (hm : m.inTransaction = true) :
    transactionAgainst hindrance ofFault operation m =
      .error (ofFault (.engine .nestedTransaction)) m := if_pos hm

theorem transactionAgainst_of_atChange (hm : m.inTransaction = false) (fault : EngineFault) :
    transactionAgainst (some (.atChange fault)) ofFault operation m =
      .error (ofFault (.engine fault)) m := if_neg (ne_true_of_eq_false hm)

/-- A refused operation takes the rows back to what they were, if it was started. -/
theorem transactionAgainst_of_error (hm : m.inTransaction = false)
    (hstart : ∀ fault, hindrance ≠ some (.atChange fault))
    (h : operation { m with inTransaction := true } = .error refusal s) :
    transactionAgainst hindrance ofFault operation m =
      .error refusal { s with table := m.table, inTransaction := false } := by
  unfold transactionAgainst
  rw [if_neg (ne_true_of_eq_false hm), h]
  rcases hindrance with _ | ⟨fault | fault⟩
  · rfl
  · exact absurd rfl (hstart fault)
  · rfl

/-- What cannot be kept is taken back, though the operation was not refused. -/
theorem transactionAgainst_of_atEnd {a : α} (hm : m.inTransaction = false) (fault : EngineFault)
    (h : operation { m with inTransaction := true } = .ok a s) :
    transactionAgainst (some (.atEnd fault)) ofFault operation m =
      .error (ofFault (.engine fault)) { s with table := m.table, inTransaction := false } := by
  unfold transactionAgainst
  rw [if_neg (ne_true_of_eq_false hm), h]

theorem transactionAgainst_of_ok {a : α} (hm : m.inTransaction = false)
    (h : operation { m with inTransaction := true } = .ok a s) :
    transactionAgainst none ofFault operation m = .ok a { s with inTransaction := false } := by
  unfold transactionAgainst
  rw [if_neg (ne_true_of_eq_false hm), h]

/-- A transaction that meets a hindrance is refused, and so is one whose operation is refused. All
that is refused has the rows from before. -/
theorem transactionAgainst_cases (hindrance : Option Hindrance) (ofFault : StoreFault → ε)
    (operation : EStateM ε Manager α) (m : Manager) :
    (∃ e m', transactionAgainst hindrance ofFault operation m = .error e m' ∧ m'.table = m.table) ∨
      hindrance = none ∧ ∃ a s, operation { m with inTransaction := true } = .ok a s ∧
        transactionAgainst hindrance ofFault operation m =
          .ok a { s with inTransaction := false } := by
  cases hm : m.inTransaction with
  | true => exact .inl ⟨_, _, transactionAgainst_of_inside hm, rfl⟩
  | false =>
    rcases hindrance with _ | ⟨fault | fault⟩
    · cases h : operation { m with inTransaction := true } with
      | ok a s => exact .inr ⟨rfl, a, s, rfl, transactionAgainst_of_ok hm h⟩
      | error e s => exact .inl ⟨_, _, transactionAgainst_of_error hm nofun h, rfl⟩
    · exact .inl ⟨_, _, transactionAgainst_of_atChange hm fault, rfl⟩
    · cases h : operation { m with inTransaction := true } with
      | ok a s => exact .inl ⟨_, _, transactionAgainst_of_atEnd hm fault h, rfl⟩
      | error e s => exact .inl ⟨_, _, transactionAgainst_of_error hm nofun h, rfl⟩

end Transaction

section Atomically

variable {work : TableWork α} {m : Manager} {t : Table} {hindrance : Option Hindrance}

theorem onTable_of_ok {a : α} (hw : work m.table = .ok a t) :
    onTable work { m with inTransaction := true } =
      .ok a { m with inTransaction := true, table := t } := by
  rw [onTable, hw]

theorem onTable_of_error {refusal : OutlineFault} (hw : work m.table = .error refusal t) :
    onTable work { m with inTransaction := true } =
      .error refusal { m with inTransaction := true, table := t } := by
  rw [onTable, hw]

theorem atomically_of_inside (hm : m.inTransaction = true) :
    atomically hindrance work m = .error (.ofStore (.engine .nestedTransaction)) m :=
  transactionAgainst_of_inside hm

theorem atomically_of_ok {a : α} (hm : m.inTransaction = false) (hw : work m.table = .ok a t) :
    atomically none work m = .ok a { m with table := t } := by
  rw [atomically, transactionAgainst_of_ok hm (onTable_of_ok hw), ← hm]

theorem atomically_of_atEnd {a : α} (hm : m.inTransaction = false) (fault : EngineFault)
    (hw : work m.table = .ok a t) :
    atomically (some (.atEnd fault)) work m = .error (.ofStore (.engine fault)) m := by
  rw [atomically, transactionAgainst_of_atEnd hm fault (onTable_of_ok hw), ← hm]

theorem atomically_of_refused {refusal : OutlineFault} (hm : m.inTransaction = false)
    (hstart : ∀ fault, hindrance ≠ some (.atChange fault))
    (hw : work m.table = .error refusal t) : atomically hindrance work m = .error refusal m := by
  rw [atomically, transactionAgainst_of_error hm hstart (onTable_of_error hw), ← hm]

theorem atomically_of_error {refusal : OutlineFault} (hm : m.inTransaction = false)
    (hw : work m.table = .error refusal t) : atomically none work m = .error refusal m :=
  atomically_of_refused hm nofun hw

/-- Work on the table is refused and leaves the manager as it was, or puts its table in place. -/
theorem atomically_cases (hindrance : Option Hindrance) (work : TableWork α) (m : Manager) :
    (∃ refusal, atomically hindrance work m = .error refusal m) ∨
      ∃ a t, work m.table = .ok a t ∧
        atomically hindrance work m = .ok a { m with table := t } := by
  obtain hm | hm := m.inTransaction.eq_false_or_eq_true
  · exact .inl ⟨_, atomically_of_inside hm⟩
  · rcases hindrance with _ | ⟨fault | fault⟩
    · cases hw : work m.table with
      | ok a t => exact .inr ⟨a, t, rfl, atomically_of_ok hm hw⟩
      | error refusal t => exact .inl ⟨_, atomically_of_error hm hw⟩
    · exact .inl ⟨_, transactionAgainst_of_atChange hm fault⟩
    · cases hw : work m.table with
      | ok a t => exact .inl ⟨_, atomically_of_atEnd hm fault hw⟩
      | error refusal t => exact .inl ⟨_, atomically_of_refused hm nofun hw⟩

end Atomically

theorem unharmful_atomically (hindrance : Option Hindrance) (work : TableWork α) :
    Unharmful (atomically hindrance work) := by
  intro m refusal m' h
  rcases atomically_cases hindrance work m with ⟨_, hrun⟩ | ⟨_, _, _, hrun⟩
  · rw [hrun] at h
    cases h
    exact ⟨rfl, rfl⟩
  · rw [hrun] at h
    cases h

theorem Unharmful.told (h : Unharmful operation) (change : Change) (nid : PageId) :
    Unharmful (told change nid operation) := by
  intro m refusal m' hr
  unfold Manager.told at hr
  cases ho : operation m with
  | ok a s => rw [ho] at hr; cases hr
  | error e s =>
    rw [ho] at hr
    cases hr
    exact h m _ s ho

/-- What follows an operation does no harm if it is never refused. The cache is only touched there,
after the transaction. -/
theorem Unharmful.bind_of_accepted (h : Unharmful operation)
    (hnext : ∀ a m, ∃ b m', next a m = .ok b m') : Unharmful (operation >>= next) := by
  intro m refusal m' hr
  cases ho : operation m with
  | ok a s =>
    obtain ⟨b, s', hs⟩ := hnext a s
    rw [bind_of_ok ho, hs] at hr
    cases hr
  | error e s =>
    rw [bind_of_error ho] at hr
    cases hr
    exact h m _ _ ho

/-- What follows a look at the table starts from the same manager. -/
theorem unharmful_look_bind {f : Table → Except StoreFault α} (hnext : ∀ a, Unharmful (next a)) :
    Unharmful (look f >>= next) := by
  intro m refusal m' hr
  cases hl : look f m with
  | ok a s =>
    rw [bind_of_ok hl, ← state_of_look hl] at hr
    exact hnext a m refusal m' hr
  | error e s =>
    rw [bind_of_error hl] at hr
    cases hr
    exact unharmful_look f m _ _ hl

end Unharmful

section Changes

variable (hindrance : Option Hindrance)

theorem unharmful_addRoot (nid : PageId) (weight : Int32) :
    Unharmful (addRootAgainst hindrance nid weight) :=
  ((unharmful_atomically _ _).told _ _).bind_of_accepted fun _ _ => ⟨_, _, rfl⟩

theorem unharmful_addChild (nid pid : PageId) (weight : Int32) :
    Unharmful (addChildAgainst hindrance nid pid weight) :=
  ((unharmful_atomically _ _).told _ _).bind_of_accepted fun _ _ => ⟨_, _, rfl⟩

theorem unharmful_move (nid pid : PageId) (weight : Option Int32) :
    Unharmful (moveAgainst hindrance nid pid weight) :=
  ((unharmful_atomically _ _).told _ _).bind_of_accepted fun _ _ => ⟨_, _, rfl⟩

theorem unharmful_delete (nid : PageId) : Unharmful (deleteAgainst hindrance nid) :=
  ((unharmful_atomically _ _).told _ _).bind_of_accepted fun _ _ => ⟨_, _, rfl⟩

theorem unharmful_update (r : Request) : Unharmful (updateAgainst hindrance r) := by
  unfold updateAgainst
  cases r.bid? with
  | none => exact unharmful_pure none
  | some bid =>
    apply unharmful_look_bind
    intro found
    split
    · exact (unharmful_move _ _ _ _).bind_of_accepted fun _ _ => ⟨_, _, rfl⟩
    · split
      · exact (unharmful_addRoot _ _ _).bind_of_accepted fun _ _ => ⟨_, _, rfl⟩
      · exact (unharmful_addChild _ _ _ _).bind_of_accepted fun _ _ => ⟨_, _, rfl⟩

theorem Mutation.unharmful (c : Mutation) : Unharmful (c.performAgainst hindrance) := by
  cases c with
  | addRoot nid weight =>
    exact (unharmful_addRoot hindrance nid weight).bind_of_accepted fun _ _ => ⟨_, _, rfl⟩
  | addChild nid pid weight =>
    exact (unharmful_addChild hindrance nid pid weight).bind_of_accepted fun _ _ => ⟨_, _, rfl⟩
  | move nid pid weight =>
    exact (unharmful_move hindrance nid pid weight).bind_of_accepted fun _ _ => ⟨_, _, rfl⟩
  | update request => exact unharmful_update hindrance request
  | delete nid =>
    exact (unharmful_delete hindrance nid).bind_of_accepted fun _ _ => ⟨_, _, rfl⟩

end Changes

/-- Over any rows at all, and whatever hindrance it meets, a refused change leaves all rows and all
cache entries as they were: the cache is touched only once the rows are kept. A transaction that meets
a hindrance is refused, and so is one whose operation is refused; a refused transaction leaves all
rows as they were, whatever was written in it. -/
theorem refused_leaves_unchanged :
    (∀ (hindrance : Option Hindrance) (c : Mutation) (m m' : Manager) (refusal : OutlineFault),
      c.performAgainst hindrance m = .error refusal m' →
        m'.table = m.table ∧ m'.cache = m.cache) ∧
    ∀ (hindrance : Option Hindrance) (ε α : Type) (ofFault : StoreFault → ε)
      (operation : EStateM ε Manager α) (m : Manager),
      (hindrance ≠ none → ∃ e m', transactionAgainst hindrance ofFault operation m = .error e m') ∧
      (∀ refusal s, operation { m with inTransaction := true } = .error refusal s →
        ∃ e m', transactionAgainst hindrance ofFault operation m = .error e m' ∧
          m'.table = m.table ∧ (m.inTransaction = false →
            (∀ fault, hindrance ≠ some (.atChange fault)) → e = refusal)) ∧
      ∀ e m', transactionAgainst hindrance ofFault operation m = .error e m' →
        m'.table = m.table := by
  constructor
  · intro hindrance c m m' refusal h
    exact c.unharmful hindrance m refusal m' h
  · intro hindrance ε α ofFault operation m
    rcases transactionAgainst_cases hindrance ofFault operation m with
      ⟨e, m', hrun, htable⟩ | ⟨hnone, a, s, hok, hrun⟩
    · refine ⟨fun _ => ⟨e, m', hrun⟩, fun refusal s h => ⟨e, m', hrun, htable, fun hm hstart => ?_⟩,
        fun e' m'' h => ?_⟩
      · rw [transactionAgainst_of_error hm hstart h] at hrun
        cases hrun
        rfl
      · rw [hrun] at h
        cases h
        exact htable
    · refine ⟨fun hsome => absurd hnone hsome, fun refusal s' h => ?_, fun e m' h => ?_⟩
      · rw [hok] at h
        cases h
      · rw [hrun] at h
        cases h

section Results

variable {ε σ α : Type} {r : EStateM.Result ε σ α}

theorem exists_of_refused {p : ε → σ → Bool}
    (h : (match r with | .ok _ _ => false | .error e s => p e s) = true) :
    ∃ e s, r = .error e s ∧ p e s = true := by
  cases r with
  | ok a s => cases h
  | error e s => exact ⟨e, s, rfl, h⟩

theorem exists_of_done {p : α → σ → Bool}
    (h : (match r with | .ok a s => p a s | .error _ _ => false) = true) :
    ∃ a s, r = .ok a s ∧ p a s = true := by
  cases r with
  | ok a s => exact ⟨a, s, rfl, h⟩
  | error e s => cases h

end Results

/-- A book of three pages, and below the last of them a row that no link can be read from. -/
def damagedBook : Table :=
  [.ofLink (.root 1 0), .ofLink (.along [1, 2] false 0), .ofLink (.along [1, 3] true 0),
    { Row.ofLink (.along [1, 3, 4] false 0) with hasChildren := .int 7 }].foldl Table.put .empty

/-- Removing the top of the damaged book fails when its second child is to become a root, with the
top gone and the first child rewritten. -/
theorem delete_damagedBook : ∃ refusal t, Arrange.delete 1 damagedBook = .error refusal t ∧
    t.rows.map Row.nid = [2, 3, 4] ∧ t.row? 2 = some (.ofLink (.root 2 0)) := by
  obtain ⟨refusal, t, hrun, hrows⟩ := exists_of_refused (r := Arrange.delete 1 damagedBook)
    (p := fun _ t => t.rows.map Row.nid = [2, 3, 4] ∧ t.row? 2 = some (.ofLink (.root 2 0)))
    (by cbv)
  exact ⟨refusal, t, hrun, of_decide_eq_true hrows⟩

/-- Placing a page below the first child of the damaged book succeeds. -/
theorem addChild_damagedBook : ∃ l t, Arrange.addChild 5 2 0 damagedBook = .ok l t ∧
    l.bid = 1 ∧ t.rows.map Row.nid = [1, 2, 3, 4, 5] := by
  obtain ⟨l, t, hrun, hrows⟩ := exists_of_done (r := Arrange.addChild 5 2 0 damagedBook)
    (p := fun l t => l.bid = 1 ∧ t.rows.map Row.nid = [1, 2, 3, 4, 5]) (by cbv)
  exact ⟨l, t, hrun, of_decide_eq_true hrows⟩

/-- The damaged book, with an entry in the cache that goes when the book is dropped. -/
def damaged : Manager :=
  { table := damagedBook, cache := Cache.empty.set "kept" [] [Cache.bookTag 1] }

/-- Nothing of a removal that was refused half way is left, neither when it is asked for as a change
nor when it is done in a transaction of its own. A page is placed and the cache of its book dropped;
but when what was written cannot be kept, then neither is done. -/
theorem refused_leaves_unchanged_damagedBook :
    (∃ refusal t, Arrange.delete 1 damaged.table = .error refusal t ∧ t ≠ damaged.table ∧
      (∃ m', (Mutation.delete 1).performAgainst none damaged = .error refusal m' ∧
        m'.table = damaged.table ∧ m'.cache = damaged.cache) ∧
      ∃ e m', transactionAgainst none .ofStore (onTable (Arrange.delete 1)) damaged = .error e m' ∧
        m'.table = damaged.table ∧ e = refusal) ∧
    (∃ l m', (Mutation.addChild 5 2 0).performAgainst none damaged = .ok l m' ∧
      m'.table ≠ damaged.table ∧ m'.cache ≠ damaged.cache) ∧
    ∃ m', (Mutation.addChild 5 2 0).performAgainst (some (.atEnd .diskFull)) damaged =
        .error (.storeUnavailable (.engine .diskFull)) m' ∧
      m'.table = damaged.table ∧ m'.cache = damaged.cache := by
  have hbefore : damaged.table.rows.map Row.nid = [1, 2, 3, 4] := by decide
  obtain ⟨refusal, t, hdelete, hrows, _⟩ := delete_damagedBook
  obtain ⟨l, t', hplace, hbid, hplaced⟩ := addChild_damagedBook
  refine ⟨⟨refusal, t, hdelete, ?_, ?_, ?_⟩, ?_, ?_⟩
  · intro heq
    rw [heq] at hrows
    exact absurd (hbefore.symm.trans hrows) (by decide)
  · have htold : told .delete 1 (atomically none (Arrange.delete 1)) damaged =
        .error refusal (damaged.tell [refused .delete 1 refusal]) := by
      rw [told, atomically_of_error rfl hdelete]
    have hperform : (Mutation.delete 1).performAgainst none damaged = _ :=
      bind_of_error (bind_of_error htold)
    exact ⟨_, hperform, refused_leaves_unchanged.1 _ _ _ _ _ hperform⟩
  · have hrun : onTable (Arrange.delete 1) { damaged with inTransaction := true } = _ :=
      onTable_of_error hdelete
    obtain ⟨e, m', htransaction, htable, hsame⟩ :=
      (refused_leaves_unchanged.2 none _ _ OutlineFault.ofStore _ damaged).2.1 _ _ hrun
    exact ⟨e, m', htransaction, htable, hsame rfl nofun⟩
  · have htold : told .save 5 (atomically none (Arrange.addChild 5 2 0)) damaged =
        .ok l ({ damaged with table := t' }.tell [changed .save 5]) := by
      rw [told, atomically_of_ok rfl hplace]
    have hperform : (Mutation.addChild 5 2 0).performAgainst none damaged = _ :=
      bind_of_ok (bind_of_ok htold)
    refine ⟨_, _, hperform, ?_, ?_⟩
    · intro heq
      have hsame : t' = damaged.table := heq
      rw [hsame] at hplaced
      exact absurd (hbefore.symm.trans hplaced) (by decide)
    · change [l.bid].foldl Cache.dropBook damaged.cache ≠ damaged.cache
      rw [hbid]
      decide +kernel
  · have htold : told .save 5 (atomically (some (.atEnd .diskFull)) (Arrange.addChild 5 2 0))
        damaged = .error (.storeUnavailable (.engine .diskFull))
          (damaged.tell [refused .save 5 (.storeUnavailable (.engine .diskFull))]) := by
      rw [told, atomically_of_atEnd rfl .diskFull hplace]
      rfl
    have hperform : (Mutation.addChild 5 2 0).performAgainst (some (.atEnd .diskFull)) damaged = _ :=
      bind_of_error (bind_of_error htold)
    exact ⟨_, hperform, refused_leaves_unchanged.1 _ _ _ _ _ hperform⟩

end Outline.Manager
