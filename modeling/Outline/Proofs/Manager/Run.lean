import Outline.Proofs.Manager.Reads

/-!
Runs of an outline that starts without rows, and the rows they lead to.

Whatever is asked for, in whatever order, all rows stay sound. So no operation of such a run ever
finds a row that it cannot read, or writes one that the table does not take.
-/
namespace Outline.Manager
set_option autoImplicit false

/-- What can happen to an outline: a change, a read, or other news about pages. -/
inductive Action where
  | change (c : Mutation)
  | read (r : Read)
  | learn (content : Content)

/-- The manager after an operation, refused or not. -/
def after {α : Type} (operation : Managed α) (m : Manager) : Manager :=
  match operation m with
  | .ok _ m' => m'
  | .error _ m' => m'

/-- What an operation tells, or why it is refused. -/
def outcome {α : Type} (operation : Managed α) (m : Manager) : Except OutlineFault α :=
  match operation m with
  | .ok a _ => .ok a
  | .error refusal _ => .error refusal

section After

variable {α : Type} {operation : Managed α} {m m' : Manager}

theorem after_of_ok {a : α} (h : operation m = .ok a m') : after operation m = m' := by
  rw [after, h]

theorem after_of_error {refusal : OutlineFault} (h : operation m = .error refusal m') :
    after operation m = m' := by
  rw [after, h]

/-- An operation that is not refused ends in what it tells, with the manager after it. -/
theorem run_of_outcome {a : α} (h : outcome operation m = .ok a) :
    operation m = .ok a (after operation m) := by
  cases hrun : operation m with
  | ok b m' =>
    rw [outcome, hrun] at h
    cases h
    rw [after_of_ok hrun]
  | error refusal m' =>
    rw [outcome, hrun] at h
    cases h

end After

/-- The manager after an action. -/
def act (m : Manager) : Action → Manager
  | .change c => after c.perform m
  | .read r => after r.perform m
  | .learn content => { m with content := content }

/-- The manager after some actions. -/
def run (m : Manager) (as : List Action) : Manager := as.foldl act m

/-- A manager over a table without rows. -/
def blank (content : Content) (settings : Settings) : Manager :=
  { table := .empty, content := content, settings := settings }

/-- Whether each action of a run is allowed where it is taken. -/
def Permitted (allowed : Manager → Action → Prop) : Manager → List Action → Prop
  | _, [] => True
  | m, a :: as => allowed m a ∧ Permitted allowed (m.act a) as

/-- Whether a run is permitted can be found out action by action. -/
def decidePermitted (allowed : Manager → Action → Prop) [∀ m a, Decidable (allowed m a)] :
    ∀ (m : Manager) (as : List Action), Decidable (Permitted allowed m as)
  | _, [] => isTrue trivial
  | m, a :: as =>
    have := decidePermitted allowed (m.act a) as
    inferInstanceAs (Decidable (allowed m a ∧ Permitted allowed (m.act a) as))

instance (allowed : Manager → Action → Prop) [∀ m a, Decidable (allowed m a)] (m : Manager)
    (as : List Action) : Decidable (Permitted allowed m as) :=
  decidePermitted allowed m as

theorem Permitted.of_isPrefix {allowed : Manager → Action → Prop} {as bs : List Action} :
    ∀ {m : Manager}, Permitted allowed m as → bs <+: as → Permitted allowed m bs := by
  induction bs generalizing as with
  | nil => exact fun _ _ => trivial
  | cons b bs ih =>
    rintro m has ⟨rest, rfl⟩
    exact ⟨has.1, ih has.2 (List.prefix_append bs rest)⟩

/-- What every action keeps, also every run keeps. -/
theorem run_induction {allowed : Manager → Action → Prop} {law : Manager → Prop}
    (step : ∀ m a, law m → allowed m a → law (m.act a)) (as : List Action) :
    ∀ m, law m → Permitted allowed m as → law (m.run as) := by
  induction as with
  | nil => intro m hm _; exact hm
  | cons a as ih =>
    intro m hm hp
    exact ih (m.act a) (step m a hm hp.1) hp.2

theorem run_kept {law : Manager → Prop} (step : ∀ m a, law m → law (m.act a)) (as : List Action) :
    ∀ m, law m → law (m.run as) := by
  induction as with
  | nil => exact fun _ hm => hm
  | cons a as ih => exact fun m hm => ih (m.act a) (step m a hm)

/-- A manager with sound rows, outside a transaction. -/
structure Ready (m : Manager) : Prop where
  sound : m.table.Sound
  outside : m.inTransaction = false

/-- What an action does to a ready manager: news change the content, a refused change nothing but
the journal, a change takes a step, and a read may put a forest into the cache. -/
inductive Acted (m : Manager) : Action → Manager → Prop where
  | learnt (content : Content) : Acted m (.learn content) { m with content := content }
  | refused (c : Mutation) (events : List Event) : Acted m (.change c) (m.tell events)
  | changed {c : Mutation} {t : Table} {touched : List PageId} (events : List Event)
      (step : Step m.table c touched t) : Acted m (.change c) (m.settle t touched events)
  | read (r : Read) (events : List Event) :
      Acted m (.read r)
        (m.keep (((r.wanted m.table).map (Wanted.cacheAfter m)).getD m.cache) events)

section Ready

variable {m : Manager}

theorem Ready.acted (h : m.Ready) (a : Action) : Acted m a (m.act a) := by
  cases a with
  | learn content => exact .learnt content
  | change c =>
    rcases c.proceeds h.sound h.outside with ⟨refusal, events, hrun, _⟩ |
      ⟨found, t, touched, events, hrun, hstep⟩
    · rw [act, after, hrun]
      exact .refused c events
    · rw [act, after, hrun]
      exact .changed events hstep
  | read r =>
    obtain ⟨told, htold⟩ := r.tells h.sound
    obtain ⟨events, hrun⟩ := htold m.cache
    rw [act, after, hrun]
    exact .read r events

/-- What an action does to the rows is a step, if only that of doing nothing. -/
theorem Ready.step (h : m.Ready) (a : Action) :
    ∃ c touched, Step m.table c touched (m.act a).table := by
  have hacted := h.acted a
  generalize m.act a = m' at hacted ⊢
  cases hacted with
  | learnt content => exact ⟨.delete 0, [], .nothing⟩
  | refused c events => exact ⟨c, [], .nothing⟩
  | changed events step => exact ⟨_, _, step⟩
  | read r events => exact ⟨.delete 0, [], .nothing⟩

theorem Ready.act (h : m.Ready) (a : Action) : (m.act a).Ready := by
  have hacted := h.acted a
  generalize m.act a = m' at hacted ⊢
  cases hacted with
  | learnt content => exact ⟨h.sound, h.outside⟩
  | refused c events => exact ⟨h.sound, h.outside⟩
  | changed events step => exact ⟨step.sound h.sound, h.outside⟩
  | read r events => exact ⟨h.sound, h.outside⟩

theorem Ready.table_read (h : m.Ready) (r : Read) : (m.act (.read r)).table = m.table := by
  have hacted := h.acted (.read r)
  generalize m.act (.read r) = m' at hacted ⊢
  cases hacted
  rfl

end Ready

theorem ready_blank (content : Content) (settings : Settings) : (blank content settings).Ready :=
  ⟨Table.sound_empty, rfl⟩

theorem Ready.run {m : Manager} (h : m.Ready) (as : List Action) : (m.run as).Ready :=
  run_kept (fun _ a h => h.act a) as m h

/-- After any run, each row holds a valid link whose ids down to its own level are page ids, whose
book is the first of them and whose parent is the one before the last. No change and no read is then
refused for a fault of the store, a page that is said to be missing has no row, and a read is not
refused at all. -/
theorem run_sound (content : Content) (settings : Settings) (as : List Action) :
    (∀ r ∈ ((blank content settings).run as).table.rows, ∃ l : Link,
      r.toLink = .ok l ∧ r = .ofLink l ∧ l.Valid ∧
      (∀ level, 1 ≤ level → level ≤ l.depth → 0 < l.atLevel level) ∧
      l.bid = l.atLevel 1 ∧ (1 < l.depth → l.atLevel (l.depth - 1) = l.pid)) ∧
    (∀ (c : Mutation) (refusal : OutlineFault) (m' : Manager),
      c.perform ((blank content settings).run as) = .error refusal m' →
        (∀ fault, refusal ≠ .storeUnavailable fault) ∧
        (∀ nid, refusal = .pageMissing nid →
          ((blank content settings).run as).table.row? nid = none)) ∧
    ∀ r : Read, ∃ answer m', r.perform ((blank content settings).run as) = .ok answer m' := by
  have h := (ready_blank content settings).run as
  generalize (blank content settings).run as = m at h
  refine ⟨?_, ?_, ?_⟩
  · intro r hr
    obtain ⟨l, hl, rfl⟩ := h.sound r hr
    refine ⟨l, Row.toLink_ofLink hl.valid, rfl, hl.valid, ?_, hl.book, hl.parent⟩
    intro level hpos hle
    obtain ⟨k, rfl⟩ : ∃ k, level = k + 1 := ⟨level - 1, by omega⟩
    have hlen : k < l.path.length := by rw [hl.length_path]; omega
    rw [Link.atLevel_succ hle, List.getElem?_eq_getElem hlen]
    exact hl.positive _ (List.getElem_mem hlen)
  · intro c refusal m' hc
    rcases c.proceeds h.sound h.outside with ⟨expected, events, hrun, hwhy⟩ |
      ⟨found, t, touched, events, hrun, _⟩
    · rw [hrun] at hc
      cases hc
      constructor
      · rintro fault rfl
        exact hwhy
      · rintro nid rfl
        exact (Table.stored?_eq_none_iff h.sound).1 hwhy
    · rw [hrun] at hc
      cases hc
  · intro r
    obtain ⟨told, htold⟩ := r.tells h.sound
    obtain ⟨events, hrun⟩ := htold m.cache
    exact ⟨_, _, hrun⟩

/-- An inner page is removed, its id starts another book, the old book's root is removed too, and
its id is placed below the child that was left behind. -/
def reusedIds : List Action :=
  [.change (.addRoot 1 0), .change (.addChild 2 1 0), .change (.addChild 3 2 0),
    .change (.delete 2), .change (.addRoot 2 7), .change (.delete 1), .change (.addChild 1 3 0)]

/-- With ids used again a chain may hold one page twice; the rows are still sound, and removing a
page without a row is still refused for that reason only. -/
theorem run_sound_reusedIds :
    (∃ r ∈ ((blank .empty {}).run reusedIds).table.rows,
      r = .ofLink (.along [1, 2, 3, 1] false 0) ∧
      ∃ l, r.toLink = .ok l ∧ l.Valid ∧ l.bid = l.atLevel 1) ∧
    ∃ refusal m', (Mutation.delete 9).perform ((blank .empty {}).run reusedIds) =
      .error refusal m' ∧ ∀ fault, refusal ≠ .storeUnavailable fault := by
  obtain ⟨hrows, hchanges, _⟩ := run_sound .empty {} reusedIds
  constructor
  · have hmem : Row.ofLink (.along [1, 2, 3, 1] false 0) ∈
        ((blank .empty {}).run reusedIds).table.rows := by
      rw [← List.contains_iff_mem]
      cbv
    obtain ⟨l, hl, _, hv, _, hbid, _⟩ := hrows _ hmem
    exact ⟨_, hmem, rfl, l, hl, hv, hbid⟩
  · have h := (ready_blank .empty {}).run reusedIds
    have hmiss : ((blank .empty {}).run reusedIds).table.row? 9 = none := by cbv
    have hdelete := Arrange.delete_of_missing h.sound ((Table.stored?_eq_none_iff h.sound).2 hmiss)
    have hrefused : (Mutation.delete 9).perform ((blank .empty {}).run reusedIds) = _ :=
      bind_of_error (refused_of_error h.outside hdelete)
    exact ⟨_, _, hrefused, (hchanges _ _ _ hrefused).1⟩

end Outline.Manager
