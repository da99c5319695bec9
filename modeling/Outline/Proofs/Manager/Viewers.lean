import Outline.Proofs.Manager.Impersonal

/-!
Runs that differ in who looks and in what is known about pages.

Forests are shared between viewers through the cache, as they were made of the rows. Of two runs with
the same changes and the same reads, but for the viewers, one follows the other with managers that
differ in their content only.
-/
namespace Outline.Manager
set_option autoImplicit false

variable {m m' m'' : Manager} {as as' : List Action}

/-- What is left of an action when it does not matter who looks and what is known about pages. -/
def Action.impersonal : Action → Option Action
  | .change c => some (.change c)
  | .read r => some (.read (r.viewedBy .everyone))
  | .learn _ => none

/-- Whether two managers are the same but for their content. -/
def Alike (m m' : Manager) : Prop := ∃ content, m' = m.learn content

theorem Alike.refl (m : Manager) : Alike m m := ⟨m.content, rfl⟩

theorem Alike.symm (h : Alike m m') : Alike m' m := by
  obtain ⟨content, rfl⟩ := h
  exact ⟨m.content, rfl⟩

theorem Alike.trans (h : Alike m m') (h' : Alike m' m'') : Alike m m'' := by
  obtain ⟨content, rfl⟩ := h
  obtain ⟨content', rfl⟩ := h'
  exact ⟨content', rfl⟩

theorem Alike.eq (h : Alike m m') (hcontent : m.content = m'.content) : m = m' := by
  obtain ⟨content, rfl⟩ := h
  obtain rfl : m.content = content := hcontent
  rfl

theorem alike_learn (m : Manager) (content : Content) : Alike m (m.act (.learn content)) :=
  ⟨content, rfl⟩

theorem Alike.change (h : Alike m m') (c : Mutation) :
    Alike (m.act (.change c)) (m'.act (.change c)) := by
  obtain ⟨content, rfl⟩ := h
  exact ⟨content, c.impersonal.leaves.relearned m content⟩

theorem Alike.read (h : Alike m m') (r : Read) (viewer : Viewer) :
    Alike (m.act (.read r)) (m'.act (.read (r.viewedBy viewer))) := by
  obtain ⟨content, rfl⟩ := h
  exact ⟨content, (r.leaves viewer).relearned m content⟩

/-- A run is followed by the one that is left of it. -/
theorem Alike.run_impersonal (h : Alike m m') (as : List Action) :
    Alike (m.run as) (m'.run (as.filterMap Action.impersonal)) := by
  induction as generalizing m m' with
  | nil => exact h
  | cons a as ih =>
    cases a with
    | change c => exact ih (h.change c)
    | read r => exact ih (h.read r .everyone)
    | learn content => exact ih ((alike_learn m content).symm.trans h)

theorem alike_run (h : as.filterMap Action.impersonal = as'.filterMap Action.impersonal)
    (m : Manager) : Alike (m.run as) (m.run as') := by
  have hleft := (Alike.refl m).run_impersonal as
  have hright := (Alike.refl m).run_impersonal as'
  rw [h] at hleft
  exact hleft.trans hright.symm

theorem untitled_act (m : Manager) (a : Action) : m.cache.AddsUntitled (m.act a).cache := by
  cases a with
  | change c => exact c.impersonal.untitled m
  | read r => exact (r.leaves .everyone).untitled m
  | learn content => exact .refl m.cache

theorem untitled_run (m : Manager) (as : List Action) :
    m.cache.AddsUntitled (m.run as).cache := by
  have step : ∀ (k : Manager) (a : Action), m.cache.AddsUntitled k.cache →
      m.cache.AddsUntitled (k.act a).cache := fun k a h => h.trans (untitled_act k a)
  exact run_kept step as m (.refl m.cache)

/-- The number of changes and reads among some actions. -/
def asked (as : List Action) : Nat := (as.filterMap Action.impersonal).length

/-- The actions before the same place of two runs have the same left of them. -/
theorem impersonal_before {before rest before' rest' : List Action}
    (h : (before ++ rest).filterMap Action.impersonal =
      (before' ++ rest').filterMap Action.impersonal)
    (hplace : asked before = asked before') :
    before.filterMap Action.impersonal = before'.filterMap Action.impersonal := by
  rw [List.filterMap_append, List.filterMap_append] at h
  exact (List.append_inj h hplace).1

/-- Of two runs from any manager with the same changes and the same reads, whoever looks and whatever
news there are about pages in between: the rows and the cache are the same in the end, and a read
that both make at the same place, for the same viewer and with the same content, comes to the same.
What is in the cache then was there at the start or has no titles. -/
theorem run_viewers (m : Manager) (as as' : List Action)
    (h : as.filterMap Action.impersonal = as'.filterMap Action.impersonal) :
    (m.run as).table = (m.run as').table ∧ (m.run as).cache = (m.run as').cache ∧
      (∀ before r since before' since', as = before ++ .read r :: since →
        as' = before' ++ .read r :: since' → asked before = asked before' →
        (m.run before).content = (m.run before').content →
          outcome r.perform (m.run before) = outcome r.perform (m.run before')) ∧
      ∀ key f, ((m.run as).cache.forestAt key).1 = some f →
        (m.cache.forestAt key).1 = some f ∨ f.All fun item => item.title = none := by
  obtain ⟨content, hend⟩ := alike_run h m
  refine ⟨by rw [hend]; rfl, by rw [hend]; rfl, ?_, fun key f => (untitled_run m as).forestAt⟩
  rintro before r since before' since' rfl rfl hplace hcontent
  have hbefore := impersonal_before h hplace
  rw [(alike_run hbefore m).eq hcontent]

/-- Two pages are placed and read by everyone, and one is removed. -/
def openly : List Action :=
  [.change (.addRoot 1 0), .change (.addChild 2 1 0), .read (.forest 1 none none .everyone),
    .read (.subtree 1 .everyone), .learn ⟨[(1, ⟨"One", true⟩)]⟩,
    .read (.forest 1 none none (.only [1])), .change (.delete 2)]

/-- The same with other viewers, and with news at other places. -/
def discreetly : List Action :=
  [.change (.addRoot 1 0), .learn ⟨[(2, ⟨"Two", false⟩)]⟩, .change (.addChild 2 1 0),
    .read (.forest 1 none none (.allBut [1])), .read (.subtree 1 (.only [2])),
    .learn ⟨[(1, ⟨"One", true⟩)]⟩, .read (.forest 1 none none (.only [1])),
    .learn .empty, .change (.delete 2)]

/-- The last read of both comes to the same. -/
theorem run_viewers_discreetly :
    openly.filterMap Action.impersonal = discreetly.filterMap Action.impersonal ∧
    ((blank .empty {}).run openly).table = ((blank .empty {}).run discreetly).table ∧
    ((blank .empty {}).run openly).cache = ((blank .empty {}).run discreetly).cache ∧
    outcome (Read.forest 1 none none (.only [1])).perform
        ((blank .empty {}).run (openly.take 5)) =
      outcome (Read.forest 1 none none (.only [1])).perform
        ((blank .empty {}).run (discreetly.take 6)) := by
  have hsame : openly.filterMap Action.impersonal = discreetly.filterMap Action.impersonal := rfl
  obtain ⟨htable, hcache, hreads, _⟩ := run_viewers (blank .empty {}) openly discreetly hsame
  refine ⟨hsame, htable, hcache, ?_⟩
  exact hreads (openly.take 5) _ _ (discreetly.take 6) _ rfl rfl rfl rfl

end Outline.Manager
