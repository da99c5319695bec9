import Outline.Manager.Read
import Outline.Proofs.Manager.Step
import Outline.Proofs.Store.BookIds

/-!
The reads of an outline as data, and what they do over sound rows: they are never refused, and at
most put one forest into the cache.
-/
namespace Outline.Manager
set_option autoImplicit false

/-- A read of the outline, with all that is asked for. -/
inductive Read where
  | link (nid : PageId)
  | links (nids : List PageId)
  | books (viewer : Viewer)
  | forest (bid : PageId) (focus : Option PageId) (depthLimit : Option Nat) (viewer : Viewer)
  | around (nid : PageId) (viewer : Viewer)
  | subtree (nid : PageId) (viewer : Viewer)
  | contents (bid : PageId) (depthLimit : Nat) (exclude : List PageId) (viewer : Viewer)
  | deepestParent (l : Link)

/-- What a read tells. -/
inductive Answer where
  | link (found : Option Link)
  | links (found : List Link)
  | books (found : List ListedBook)
  | forest (found : BookForest)
  | contents (found : List ContentsLine)
  | depth (found : Nat)
  deriving DecidableEq

/-- Does a read. The engine is taken to set no limit to the ids in one statement. -/
def Read.perform : Read → Managed Answer
  | .link nid => return .link (← link? nid)
  | .links nids => return .links (← Manager.links nids)
  | .books viewer => return .books (← allBooks viewer)
  | .forest bid focus depthLimit viewer =>
    return .forest (← bookForest bid focus depthLimit viewer)
  | .around nid viewer => return .links (← pagesAround nid viewer)
  | .subtree nid viewer => return .forest (← Manager.subtree nid viewer)
  | .contents bid depthLimit exclude viewer =>
    return .contents (← Manager.contents bid depthLimit exclude viewer)
  | .deepestParent l => return .depth (← Manager.deepestParent l)

/-- The manager with another cache, and events told. -/
def keep (m : Manager) (c : Cache) (events : List Event) : Manager :=
  { m with cache := c, journal := m.journal ++ events }

/-- An operation that is not refused, leaves a cache, and changes nothing else but the journal. -/
def Answers {α : Type} (m : Manager) (operation : Managed α) (a : α) (c : Cache) : Prop :=
  ∃ events, operation m = .ok a (m.keep c events)

section Answers

variable {m : Manager} {α β : Type} {operation : Managed α} {next : α → Managed β} {a : α} {b : β}
  {c c' : Cache}

theorem answers_pure (a : α) : Answers m (pure a) a m.cache :=
  ⟨[], by simp [keep]; rfl⟩

theorem look_of_ok {f : Table → Except StoreFault α} (h : f m.table = .ok a) :
    look f m = .ok a m := by
  rw [look, h]

theorem look_of_error {f : Table → Except StoreFault α} {fault : StoreFault}
    (h : f m.table = .error fault) : look f m = .error (.ofStore fault) m := by
  rw [look, h]

theorem answers_look {f : Table → Except StoreFault α} (h : f m.table = .ok a) :
    Answers m (look f) a m.cache :=
  ⟨[], by rw [look_of_ok h]; simp [keep]⟩

theorem Answers.bind (h : Answers m operation a c)
    (hnext : ∀ events, Answers (m.keep c events) (next a) b c') :
    Answers m (operation >>= next) b c' := by
  obtain ⟨events, hrun⟩ := h
  obtain ⟨more, hmore⟩ := hnext events
  refine ⟨events ++ more, ?_⟩
  rw [bind_of_ok hrun, hmore]
  simp [keep, List.append_assoc]

theorem Answers.bind_pure {g : α → β} (h : Answers m operation a c) :
    Answers m (operation >>= fun a => pure (g a)) (g a) c :=
  h.bind fun _ => answers_pure _

end Answers

/-- The key under which a forest of a book is kept. -/
def forestKey (m : Manager) (bid : PageId) (focus : Option Link) (depthLimit : Option Nat) :
    String :=
  Cache.bookKey m.settings.locale bid ((focus.map Link.nid).getD 0) depthLimit

section KeptForest

variable {m : Manager} {bid : PageId} {focus : Option Link} {d : Option Nat} {f : BookForest}

/-- What is told when the forest of a book is looked for in the cache. -/
def forestLooked (m : Manager) (bid : PageId) (focus : Option Link) (d : Option Nat) : Event :=
  (m.cache.forestAt (m.forestKey bid focus d)).2

/-- A forest that is not in the cache is made of the rows, if they can be read, and put there. -/
theorem keptForest_eq (m : Manager) (bid : PageId) (focus : Option Link) (d : Option Nat) :
    keptForest bid focus d m =
      match (m.cache.forestAt (m.forestKey bid focus d)).1 with
      | some f => .ok f (m.keep m.cache [m.forestLooked bid focus d])
      | none =>
        match m.table.select (bookQuery bid focus d) with
        | .ok rows =>
          .ok (BookForest.build (activePages focus).contains 1 rows)
            (m.keep (m.cache.putForest (m.forestKey bid focus d) bid
              (BookForest.build (activePages focus).contains 1 rows))
                [m.forestLooked bid focus d])
        | .error fault => .error (.ofStore fault) (m.keep m.cache [m.forestLooked bid focus d]) := by
  unfold keptForest forestLooked forestKey
  simp only [bind, EStateM.bind, get, getThe, MonadStateOf.get, EStateM.get, set, EStateM.set]
  cases (m.cache.forestAt _).1 with
  | some f => rfl
  | none =>
    cases hselect : m.table.select (bookQuery bid focus d) with
    | ok rows =>
      have hlook : ∀ events, look (·.select (bookQuery bid focus d)) (m.tell events) =
          .ok rows (m.tell events) := fun _ => look_of_ok hselect
      exact (bind_of_ok (hlook _)).trans rfl
    | error fault =>
      have hlook : ∀ events, look (·.select (bookQuery bid focus d)) (m.tell events) =
          .error (.ofStore fault) (m.tell events) := fun _ => look_of_error hselect
      exact (bind_of_error (hlook _)).trans rfl

theorem keptForest_of_found (h : (m.cache.forestAt (m.forestKey bid focus d)).1 = some f) :
    Answers m (keptForest bid focus d) f m.cache :=
  ⟨[m.forestLooked bid focus d], by rw [keptForest_eq, h]⟩

theorem keptForest_of_missing (h : (m.cache.forestAt (m.forestKey bid focus d)).1 = none) :
    ∃ events, keptForest bid focus d m =
      match m.table.select (bookQuery bid focus d) with
      | .ok rows =>
        .ok (BookForest.build (activePages focus).contains 1 rows)
          (m.keep (m.cache.putForest (m.forestKey bid focus d) bid
            (BookForest.build (activePages focus).contains 1 rows)) events)
      | .error fault => .error (.ofStore fault) (m.keep m.cache events) :=
  ⟨[m.forestLooked bid focus d], by rw [keptForest_eq, h]⟩

/-- The forest below a page that is not in the cache is made of the rows within the page, if they
can be read, and put there. -/
theorem keptSubtree_eq (m : Manager) (l : Link) :
    keptSubtree l m =
      match (m.cache.subtreeOf m.settings.locale l.nid).1 with
      | some f => .ok f (m.keep m.cache (m.cache.subtreeOf m.settings.locale l.nid).2)
      | none =>
        match m.table.select ((Query.book l.bid).within l) with
        | .ok rows =>
          .ok (BookForest.build (fun _ => false) l.depth rows)
            (m.keep (m.cache.putSubtree m.settings.locale l
              (BookForest.build (fun _ => false) l.depth rows))
                (m.cache.subtreeOf m.settings.locale l.nid).2)
        | .error fault =>
          .error (.ofStore fault)
            (m.keep m.cache (m.cache.subtreeOf m.settings.locale l.nid).2) := by
  unfold keptSubtree
  simp only [bind, EStateM.bind, get, getThe, MonadStateOf.get, EStateM.get, set, EStateM.set]
  cases (m.cache.subtreeOf m.settings.locale l.nid).1 with
  | some f => rfl
  | none =>
    cases hselect : m.table.select ((Query.book l.bid).within l) with
    | ok rows =>
      have hlook : ∀ events, look (·.select ((Query.book l.bid).within l)) (m.tell events) =
          .ok rows (m.tell events) := fun _ => look_of_ok hselect
      exact (bind_of_ok (hlook _)).trans rfl
    | error fault =>
      have hlook : ∀ events, look (·.select ((Query.book l.bid).within l)) (m.tell events) =
          .error (.ofStore fault) (m.tell events) := fun _ => look_of_error hselect
      exact (bind_of_error (hlook _)).trans rfl

end KeptForest

/-- A forest that the cache may hold: that of a book, or that below a page. -/
inductive Wanted where
  | book (bid : PageId) (focus : Option Link) (depthLimit : Option Nat)
  | below (l : Link)
  deriving DecidableEq

namespace Wanted

/-- The forest as it is kept. -/
def kept : Wanted → Managed BookForest
  | book bid focus depthLimit => keptForest bid focus depthLimit
  | below l => keptSubtree l

/-- The forest made anew from the rows. -/
def fresh (t : Table) : Wanted → BookForest
  | book bid focus depthLimit =>
    BookForest.build (activePages focus).contains 1 (t.chosen (bookQuery bid focus depthLimit))
  | below l => BookForest.build (fun _ => false) l.depth (t.chosen ((Query.book l.bid).within l))

/-- The forest as it is found in the cache. -/
def found? (m : Manager) : Wanted → Option BookForest
  | book bid focus depthLimit => (m.cache.forestAt (m.forestKey bid focus depthLimit)).1
  | below l => (m.cache.subtreeOf m.settings.locale l.nid).1

/-- The cache with the forest put into it. -/
def put (m : Manager) (f : BookForest) : Wanted → Cache
  | book bid focus depthLimit => m.cache.putForest (m.forestKey bid focus depthLimit) bid f
  | below l => m.cache.putSubtree m.settings.locale l f

/-- The cache after the forest was asked for. -/
def cacheAfter (m : Manager) (w : Wanted) : Cache :=
  match w.found? m with
  | some _ => m.cache
  | none => w.put m (w.fresh m.table)

theorem kept_book (m : Manager) (h : m.table.Sound) (bid : PageId) (focus : Option Link)
    (depthLimit : Option Nat) :
    Answers m (keptForest bid focus depthLimit)
      (((book bid focus depthLimit).found? m).getD ((book bid focus depthLimit).fresh m.table))
      ((book bid focus depthLimit).cacheAfter m) := by
  cases hfound : (book bid focus depthLimit).found? m with
  | some f =>
    rw [cacheAfter, hfound]
    exact keptForest_of_found hfound
  | none =>
    obtain ⟨events, hrun⟩ := keptForest_of_missing hfound
    rw [Table.select_eq h] at hrun
    rw [cacheAfter, hfound]
    exact ⟨events, hrun⟩

theorem kept_below (m : Manager) (h : m.table.Sound) (l : Link) :
    Answers m (keptSubtree l) (((below l).found? m).getD ((below l).fresh m.table))
      ((below l).cacheAfter m) := by
  refine ⟨(m.cache.subtreeOf m.settings.locale l.nid).2, ?_⟩
  rw [keptSubtree_eq, Table.select_eq h, cacheAfter, found?]
  cases (m.cache.subtreeOf m.settings.locale l.nid).1 <;> rfl

end Wanted

/-- The forest that a read asks for, if it asks for one. -/
def Read.wanted (t : Table) : Read → Option Wanted
  | .forest bid none depthLimit _ => some (.book bid none depthLimit)
  | .forest bid (some nid) depthLimit _ =>
    (t.stored? nid).map fun l => .book bid (some l) depthLimit
  | .around nid _ => (t.stored? nid).map fun l => .book l.bid (some l) (some (l.depth + 1))
  | .subtree nid _ => (t.stored? nid).map .below
  | .contents bid _ _ _ => some (.book bid none none)
  | _ => none

/-- What an operation tells, the forest it asks for being given: it is not refused, whatever is in
the cache, and the cache matters to it for that forest only. -/
def TellsFrom {α : Type} (m : Manager) (w? : Option Wanted) (operation : Managed α) : Prop :=
  ∃ told : Option BookForest → α, ∀ c,
    Answers { m with cache := c } operation
      (told (w?.map fun w => (w.found? { m with cache := c }).getD (w.fresh m.table)))
      ((w?.map fun w => w.cacheAfter { m with cache := c }).getD c)

section TellsFrom

variable {m : Manager} {α β : Type} {operation : Managed α} {w? : Option Wanted}

theorem TellsFrom.map (h : TellsFrom m w? operation) (g : α → β) :
    TellsFrom m w? (operation >>= fun a => pure (g a)) := by
  obtain ⟨told, htold⟩ := h
  exact ⟨fun f => g (told f), fun c => (htold c).bind_pure⟩

theorem tellsFrom_look {f : Table → Except StoreFault α} {a : α} (h : f m.table = .ok a) :
    TellsFrom m none (look f) :=
  ⟨fun _ => a, fun _ => answers_look h⟩

theorem answers_get_bind {next : Manager → Managed β} {b : β} {c : Cache}
    (h : Answers m (next m) b c) : Answers m (get >>= next) b c := by
  obtain ⟨events, hrun⟩ := h
  exact ⟨events, (bind_of_ok rfl).trans hrun⟩

theorem tellsFrom_books (h : m.table.Sound) (viewer : Viewer) :
    TellsFrom m none (allBooks viewer) := by
  obtain ⟨stored, hstored, _⟩ := Table.links_eq h m.table.usedBooks
  refine ⟨fun _ => visibleBooks m.content viewer stored m.table.usedBooks, fun c => ?_⟩
  refine (answers_look (m := { m with cache := c }) (Table.bookIds_eq h)).bind fun _ => ?_
  refine (answers_look (a := stored) hstored).bind fun _ => ?_
  exact answers_get_bind (answers_pure _)

theorem tellsFrom_forest (h : m.table.Sound) (bid : PageId) (focus : Option PageId)
    (depthLimit : Option Nat) (viewer : Viewer) :
    TellsFrom m ((Read.forest bid focus depthLimit viewer).wanted m.table)
      (bookForest bid focus depthLimit viewer) := by
  refine ⟨fun f => (f.map (forViewer m.content viewer)).getD .nil, fun c => answers_get_bind ?_⟩
  cases focus with
  | none => exact (Wanted.kept_book { m with cache := c } h bid none depthLimit).bind_pure
  | some nid =>
    refine (answers_look (Table.link?_eq h nid)).bind fun events => ?_
    cases hl : m.table.stored? nid with
    | none =>
      simp only [Read.wanted, hl, Option.map_none, Option.getD_none]
      exact answers_pure Forest.nil
    | some l =>
      simp only [Read.wanted, hl, Option.map_some, Option.getD_some]
      exact (Wanted.kept_book (keep { m with cache := c } c events) h bid (some l)
        depthLimit).bind_pure

theorem tellsFrom_around (h : m.table.Sound) (nid : PageId) (viewer : Viewer) :
    TellsFrom m ((Read.around nid viewer).wanted m.table) (pagesAround nid viewer) := by
  refine ⟨fun f => (f.map fun f => (forViewer m.content viewer f).links).getD [], fun c => ?_⟩
  refine (answers_look (Table.link?_eq h nid)).bind fun events => ?_
  cases hl : m.table.stored? nid with
  | none =>
    simp only [Read.wanted, hl, Option.map_none, Option.getD_none]
    exact answers_pure []
  | some l =>
    simp only [Read.wanted, hl, Option.map_some, Option.getD_some]
    refine (Wanted.kept_book (keep { m with cache := c } c events) h l.bid (some l)
      (some (l.depth + 1))).bind fun _ => ?_
    exact answers_get_bind (answers_pure _)

theorem tellsFrom_subtree (h : m.table.Sound) (nid : PageId) (viewer : Viewer) :
    TellsFrom m ((Read.subtree nid viewer).wanted m.table) (subtree nid viewer) := by
  refine ⟨fun f => (f.map (forViewer m.content viewer)).getD .nil, fun c => ?_⟩
  refine (answers_look (Table.link?_eq h nid)).bind fun events => ?_
  cases hl : m.table.stored? nid with
  | none =>
    simp only [Read.wanted, hl, Option.map_none, Option.getD_none]
    exact answers_pure Forest.nil
  | some l =>
    simp only [Read.wanted, hl, Option.map_some, Option.getD_some]
    refine (Wanted.kept_below (keep { m with cache := c } c events) h l).bind fun _ => ?_
    exact answers_get_bind (answers_pure _)

theorem tellsFrom_contents (h : m.table.Sound) (bid : PageId) (depthLimit : Nat)
    (exclude : List PageId) (viewer : Viewer) :
    TellsFrom m ((Read.contents bid depthLimit exclude viewer).wanted m.table)
      (contents bid depthLimit exclude viewer) := by
  obtain ⟨told, htold⟩ := tellsFrom_forest h bid none none viewer
  refine ⟨fun f => (told f).contents ⟨depthLimit, exclude, m.settings.titleWidth⟩, fun c => ?_⟩
  refine (htold c).bind fun _ => ?_
  exact answers_get_bind (answers_pure _)

theorem tellsFrom_deepestParent (h : m.table.Sound) (l : Link) :
    TellsFrom m none (deepestParent l) := by
  by_cases hc : l.hasChildren
  · refine ⟨fun _ => maxDepth - 1 - (m.table.deepest l - l.depth), fun c => ?_⟩
    unfold deepestParent
    rw [if_pos hc]
    exact (answers_look (Table.maxDepthWithin_eq h l)).bind_pure
  · refine ⟨fun _ => maxDepth - 1 - (l.depth - l.depth), fun c => ?_⟩
    unfold deepestParent
    rw [if_neg hc]
    exact (answers_pure l.depth).bind_pure

/-- A read of sound rows is never refused, and asks the cache for one forest at most. -/
theorem Read.tells (r : Read) (h : m.table.Sound) : TellsFrom m (r.wanted m.table) r.perform := by
  cases r with
  | link nid => exact (tellsFrom_look (m := m) (Table.link?_eq h nid)).map Answer.link
  | links nids =>
    obtain ⟨found, hfound, _⟩ := Table.links_eq h nids
    exact (tellsFrom_look (m := m) hfound).map Answer.links
  | books viewer => exact (tellsFrom_books h viewer).map Answer.books
  | forest bid focus depthLimit viewer =>
    exact (tellsFrom_forest h bid focus depthLimit viewer).map Answer.forest
  | around nid viewer => exact (tellsFrom_around h nid viewer).map Answer.links
  | subtree nid viewer => exact (tellsFrom_subtree h nid viewer).map Answer.forest
  | contents bid depthLimit exclude viewer =>
    exact (tellsFrom_contents h bid depthLimit exclude viewer).map Answer.contents
  | deepestParent l => exact (tellsFrom_deepestParent h l).map Answer.depth

end TellsFrom

end Outline.Manager
