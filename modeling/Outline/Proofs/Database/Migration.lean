import Outline.Proofs.Arrange.Steps
import Outline.Database.Opening

/-!
Bringing a database up to date, whatever it holds: it has all that the scripts make and all that it
had, or it is what it was.
-/
namespace Outline
set_option autoImplicit false

namespace Database

variable {db db' db'' : Database} {name : String}

/-- Whether the relations of a database, with their rows, and its indexes are all in another one,
which may have more after them. -/
structure Kept (db db' : Database) : Prop where
  relations : db.relations <+: db'.relations
  indexes : db.indexes <+: db'.indexes

theorem Kept.refl (db : Database) : db.Kept db := ⟨List.prefix_rfl, List.prefix_rfl⟩

theorem Kept.trans (h : db.Kept db') (h' : db'.Kept db'') : db.Kept db'' :=
  ⟨h.relations.trans h'.relations, h.indexes.trans h'.indexes⟩

theorem Kept.relation? {r : Relation} (h : db.Kept db') (hr : db.relation? name = some r) :
    db'.relation? name = some r := by
  obtain ⟨more, hmore⟩ := h.relations
  obtain ⟨found, hfound, rfl⟩ := Option.map_eq_some_iff.1 hr
  rw [find?] at hfound
  rw [Database.relation?, find?, ← hmore, List.find?_append, hfound]
  rfl

theorem Kept.hasIndex (h : db.Kept db') (hi : db.hasIndex name = true) :
    db'.hasIndex name = true := by
  obtain ⟨more, hmore⟩ := h.indexes
  rw [Database.hasIndex] at hi
  rw [Database.hasIndex, ← hmore, List.any_append, hi, Bool.true_or]

/-- Whether a table, not a view, has a name. -/
def Tabled (db : Database) (name : String) : Prop :=
  ∃ r, db.relation? name = some r ∧ r.isTable = true

theorem Kept.tabled (h : db.Kept db') (ht : db.Tabled name) : db'.Tabled name :=
  let ⟨r, hr, ht⟩ := ht
  ⟨r, h.relation? hr, ht⟩

theorem relation?_of_append {other : String} {r : Relation}
    (h : db'.relations = db.relations ++ [(other, r)]) (hn : db.relation? name = none) :
    db'.relation? name = if sameName other name then some r else none := by
  rw [relation?, Option.map_eq_none_iff] at hn
  rw [relation?, find?, h, List.find?_append, ← find?, hn, Option.none_or, List.find?_singleton]
  split <;> rfl

theorem withVersion_version {n : Int} (h : Word.fits32 n = true) :
    (db.withVersion n).version = n := if_pos h

end Database

namespace Statement

variable {s : Statement} {ss : List Statement} {index : Index} {db db' : Database}
  {told told' : List Event}

/-- Whether what a statement makes is there. The table of links may be anything that has its name,
but what an index is made on is a table. -/
def Stands : Statement → Database → Prop
  | .createLinks, db => (db.relation? Database.linkTable).isSome = true
  | .createIndex index, db => db.hasIndex index.name = true ∧ db.Tabled index.relation

theorem Stands.mono (h : s.Stands db) (hk : db.Kept db') : s.Stands db' := by
  cases s with
  | createLinks =>
    obtain ⟨r, hr⟩ := Option.isSome_iff_exists.1 h
    exact Option.isSome_iff_exists.2 ⟨r, hk.relation? hr⟩
  | createIndex index => exact ⟨hk.hasIndex h.1, hk.tabled h.2⟩

/-- What is known after work that makes the objects of some statements. -/
structure Made (ss : List Statement) (db db' : Database) : Prop where
  kept : db.Kept db'
  stand : ∀ s ∈ ss, s.Stands db'

theorem Made.nil (db : Database) : Made [] db db := ⟨.refl db, by simp⟩

theorem Made.append {ss' : List Statement} {db'' : Database} (h : Made ss db db')
    (h' : Made ss' db' db'') : Made (ss ++ ss') db db'' := by
  refine ⟨h.kept.trans h'.kept, fun s hs => ?_⟩
  rcases List.mem_append.1 hs with hs | hs
  · exact (h.stand s hs).mono h'.kept
  · exact h'.stand s hs

theorem made_of_makeLinks (h : makeLinks db = .ok db') :
    Made [.createLinks] db db' ∧ db'.version = db.version := by
  unfold makeLinks at h
  split at h
  next hr =>
    cases h
    exact ⟨⟨.refl db, by simpa [Stands] using hr⟩, rfl⟩
  next hr =>
    split at h
    · cases h
    · cases h
      refine ⟨⟨⟨List.prefix_append .., List.prefix_rfl⟩, fun s hs => ?_⟩, rfl⟩
      obtain rfl := List.mem_singleton.1 hs
      rw [Stands, Database.relation?, Option.isSome_map, Database.find?, List.find?_isSome]
      exact ⟨_, List.mem_append_right _ (List.mem_singleton_self _), beq_self_eq_true _⟩

theorem makeLinks_of_free (hr : db.relation? Database.linkTable = none)
    (hi : db.hasIndex Database.linkTable = false) :
    makeLinks db =
      .ok { db with relations := db.relations ++ [(Database.linkTable, .links .empty)] } := by
  simp [makeLinks, hr, hi]

theorem makeIndex_of_links {t : Table} (hl : db.relation? index.relation = some (.links t))
    (hn : db.relation? index.name = none)
    (hc : ∀ column ∈ index.columns, Row.columns.any (sameName column) = true) :
    ∃ db', makeIndex index db = .ok db' ∧ db'.relations = db.relations := by
  have hf : index.columns.find? (!(Relation.links t).hasColumn ·) = none := by
    simpa [List.find?_eq_none, Relation.hasColumn, Relation.columns] using hc
  by_cases hi : db.hasIndex index.name = true
  · exact ⟨db, by simp [makeIndex, hl, hn, hi, Relation.isTable], rfl⟩
  · exact ⟨{ db with indexes := db.indexes ++ [index] },
      by simp [makeIndex, hl, hn, hi, hf, Relation.isTable], rfl⟩

theorem made_of_makeIndex (h : makeIndex index db = .ok db') :
    Made [.createIndex index] db db' ∧ db'.version = db.version := by
  unfold makeIndex at h
  split at h
  · cases h
  next r hr =>
    split at h
    · cases h
    next ht =>
      have htable : db.Tabled index.relation := ⟨r, hr, by simpa using ht⟩
      split at h
      · cases h
      · split at h
        next hi =>
          cases h
          exact ⟨⟨.refl db, by simpa [Stands] using ⟨hi, htable⟩⟩, rfl⟩
        next =>
          split at h
          · cases h
          · cases h
            have hk : db.Kept { db with indexes := db.indexes ++ [index] } :=
              ⟨List.prefix_rfl, List.prefix_append ..⟩
            refine ⟨⟨hk, ?_⟩, rfl⟩
            simpa [Stands, Database.hasIndex, sameName] using hk.tabled htable

theorem made_of_make (h : s.make db = .ok db') :
    Made [s] db db' ∧ db'.version = db.version := by
  cases s with
  | createLinks => exact made_of_makeLinks h
  | createIndex index => exact made_of_makeIndex h

theorem runAll_cons_of_make (h : s.make db = .ok db') :
    runAll (s :: ss) (db, told) = runAll ss (db', told) := by
  have hs : s.run (db, told) = .ok () (db', told) := by rw [run, h]
  exact bind_of_ok hs

theorem runAll_of_links {t : Table} (hl : db.relation? Database.linkTable = some (.links t))
    (indexes : List Index) (told : List Event)
    (hn : ∀ index ∈ indexes, db.relation? index.name = none)
    (hc : ∀ index ∈ indexes, index.relation = Database.linkTable ∧
      ∀ column ∈ index.columns, Row.columns.any (sameName column) = true) :
    ∃ db', runAll (indexes.map .createIndex) (db, told) = .ok () (db', told) := by
  induction indexes generalizing db with
  | nil => exact ⟨db, rfl⟩
  | cons index rest ih =>
    obtain ⟨⟨hindex, hcolumns⟩, hc⟩ := List.forall_mem_cons.1 hc
    obtain ⟨hname, hn⟩ := List.forall_mem_cons.1 hn
    obtain ⟨db', hmake, hsame⟩ := makeIndex_of_links (hindex ▸ hl) hname hcolumns
    have hkeeps (name : String) : db'.relation? name = db.relation? name := by
      rw [Database.relation?, Database.find?, hsame]
      rfl
    obtain ⟨last, hlast⟩ := ih ((hkeeps _).trans hl)
      (fun index hi => (hkeeps _).trans (hn index hi)) hc
    exact ⟨last, (runAll_cons_of_make (s := .createIndex index) hmake).trans hlast⟩

theorem make_of_run (h : s.run (db, told) = .ok () (db', told')) :
    s.make db = .ok db' ∧ told' = told := by
  cases hm : s.make db with
  | error fault => simp [run, hm] at h
  | ok made =>
    obtain ⟨rfl, rfl⟩ : made = db' ∧ told = told' := by simpa [run, hm] using h
    exact ⟨rfl, rfl⟩

theorem made_of_runAll (h : runAll ss (db, told) = .ok () (db', told')) :
    Made ss db db' ∧ db'.version = db.version := by
  induction ss generalizing db told with
  | nil =>
    cases h
    exact ⟨.nil _, rfl⟩
  | cons s rest ih =>
    obtain ⟨u, ⟨first, told₁⟩, hs, hrest⟩ := ok_of_bind_ok h
    obtain ⟨hm, hv⟩ := made_of_make (make_of_run hs).1
    obtain ⟨hm', hv'⟩ := ih hrest
    exact ⟨hm.append hm', hv'.trans hv⟩

end Statement

namespace Script

variable {s : Script} {scripts : List Script} {db db' : Database} {told told' : List Event}
  {version : Nat}

theorem runAll_cons_of_ok (h : Statement.runAll s.statements (db, told) = .ok () (db', told')) :
    runAll (s :: scripts) (db, told) =
      runAll scripts (db'.withVersion s.version, told' ++ [s.applied]) := by
  have hs : s.run (db, told) = .ok () (db'.withVersion s.version, told' ++ [s.applied]) := by
    rw [run, h]
  exact bind_of_ok hs

theorem made_of_run (h : s.run (db, told) = .ok () (db', told')) :
    Statement.Made s.statements db db' ∧
      (Word.fits32 s.version = true → db'.version = s.version) := by
  cases hs : Statement.runAll s.statements (db, told) with
  | error fault state => simp [run, hs] at h
  | ok u state =>
    obtain ⟨rfl, -⟩ : state.1.withVersion s.version = db' ∧ _ := by simpa [run, hs] using h
    have hm := (Statement.made_of_runAll hs).1
    have hk : state.1.Kept (state.1.withVersion s.version) := ⟨List.prefix_rfl, List.prefix_rfl⟩
    exact ⟨⟨hm.kept.trans hk, fun st hst => (hm.stand st hst).mono hk⟩,
      Database.withVersion_version⟩

/-- Scripts that were all run have made all their objects, and the last of them its version. -/
theorem made_of_runAll (h : runAll scripts (db, told) = .ok () (db', told')) :
    Statement.Made (scripts.flatMap statements) db db' ∧
      ∀ last ∈ scripts.getLast?, Word.fits32 last.version = true →
        db'.version = last.version := by
  induction scripts generalizing db told with
  | nil =>
    cases h
    exact ⟨.nil _, by simp⟩
  | cons s rest ih =>
    obtain ⟨u, ⟨first, told₁⟩, hs, hrest⟩ := ok_of_bind_ok h
    obtain ⟨hm, hv⟩ := made_of_run hs
    obtain ⟨hm', hv'⟩ := ih hrest
    refine ⟨by simpa using hm.append hm', fun last hlast hfits => ?_⟩
    cases rest with
    | nil =>
      obtain rfl : s = last := by simpa using hlast
      cases hrest
      exact hv hfits
    | cons next rest => exact hv' last (by simpa using hlast) hfits

theorem pending_latest : pending latestVersion = [] := by decide

/-- What is pending at all ends in the script for the latest version. -/
theorem getLast?_pending (h : version < latestVersion) :
    (pending version).getLast? = all.getLast? :=
  (by decide : ∀ version < latestVersion, (pending version).getLast? = all.getLast?) version h

end Script

namespace Database

variable {db db' : Database} {told told' : List Event} {version : Nat} {scripts : List Script}

theorem versionNumber_natCast (h : db.version = version) : db.versionNumber = .ok version := by
  simp [versionNumber, h]

theorem eq_of_versionNumber (h : db.versionNumber = .ok version) : db.version = version := by
  unfold versionNumber at h
  split at h
  · cases h
  · cases h
    omega

theorem eq_of_pending (h : db.pending = .ok (version, scripts)) :
    db.version = version ∧ version ≤ Script.latestVersion ∧ scripts = Script.pending version := by
  unfold pending at h
  split at h
  · cases h
  next v hv =>
    split at h
    · cases h
    next hle =>
      cases h
      exact ⟨eq_of_versionNumber hv, Nat.le_of_not_lt hle, rfl⟩

theorem pending_of_latest (h : db.version = Script.latestVersion) :
    db.pending = .ok (Script.latestVersion, []) := by
  rw [pending, versionNumber_natCast h]
  simp only [Nat.lt_irrefl, ↓reduceIte, Script.pending_latest]

/-- A database of which nothing is pending is of the latest version. -/
theorem latest_of_pending_nil (h : db.pending = .ok (version, [])) :
    db.version = Script.latestVersion := by
  obtain ⟨hv, hle, hs⟩ := eq_of_pending h
  rcases Nat.lt_or_ge version Script.latestVersion with hlt | hge
  · have hl := Script.getLast?_pending hlt
    rw [← hs] at hl
    exact absurd hl (by decide)
  · rw [hv, Nat.le_antisymm hle hge]

/-- What has come of a database that was brought up to date: the latest version with all that there
was and, if anything was pending, a table under the name of the table of links and both indexes. -/
structure BroughtUp (db db' : Database) : Prop where
  kept : db.Kept db'
  version : db'.version = Script.latestVersion
  table : db.version < Script.latestVersion → db'.Tabled linkTable
  parents : db.version < Script.latestVersion → db'.hasIndex "idx_book_parents" = true
  children : db.version < Script.latestVersion → db'.hasIndex "idx_book_pid" = true

theorem BroughtUp.of_latest (h : db.version = Script.latestVersion) : BroughtUp db db where
  kept := .refl db
  version := h
  table hlt := absurd h (Int.ne_of_lt hlt)
  parents hlt := absurd h (Int.ne_of_lt hlt)
  children hlt := absurd h (Int.ne_of_lt hlt)

theorem broughtUp_of_runAll (h : db.pending = .ok (version, scripts)) (hs : scripts ≠ [])
    (hr : Script.runAll scripts (db, told) = .ok () (db', told')) : BroughtUp db db' := by
  obtain ⟨hm, hv⟩ := Script.made_of_runAll hr
  obtain ⟨-, hle, rfl⟩ := eq_of_pending h
  have hlt : version < Script.latestVersion := by
    refine Nat.lt_of_le_of_ne hle fun he => hs ?_
    rw [he, Script.pending_latest]
  have hlast := Script.getLast?_pending hlt
  have stand : ∀ last ∈ Script.all.getLast?, ∀ s ∈ last.statements, s.Stands db' :=
    fun last hl s hs => hm.stand s
      (List.mem_flatMap.2 ⟨last, List.mem_of_getLast? (hlast.trans hl), hs⟩)
  have hparents := stand _ rfl _ (List.mem_cons_self ..)
  have hchildren := stand _ rfl _ (List.mem_cons_of_mem _ (List.mem_cons_self ..))
  exact
    { kept := hm.kept
      version := hv _ hlast (by decide)
      table := fun _ => hparents.2
      parents := fun _ => hparents.1
      children := fun _ => hchildren.1 }

/-- Work that has to bring a database up to date and to have nothing left to do after that, or to
fail with the database as it was. -/
def AllOrNothing (work : DatabaseWork DatabaseFault Unit) (db : Database) (told : List Event) :
    Prop :=
  (∃ db' told', work (db, told) = .ok () (db', told') ∧ BroughtUp db db' ∧
      ∀ told, work (db', told) = .ok () (db', told)) ∨
    ∃ fault told', work (db, told) = .error fault (db, told')

theorem migrate_of_latest (h : db.version = Script.latestVersion) (told : List Event) :
    migrate (db, told) = .ok () (db, told) := by
  simp only [migrate, pending_of_latest h]

theorem migrate_of_runAll (hp : db.pending = .ok (version, scripts)) (hs : scripts ≠ [])
    (hr : Script.runAll scripts (db, told) = .ok () (db', told')) :
    migrate (db, told) = .ok () (db', told' ++ [migrated version]) := by
  cases scripts with
  | nil => exact absurd rfl hs
  | cons s rest => simp only [migrate, hp, hr]

theorem migrateAgainst_of_latest (hindrance : Hindrance)
    (h : db.version = Script.latestVersion) (told : List Event) :
    migrateAgainst hindrance (db, told) = .ok () (db, told) := by
  simp only [migrateAgainst, pending_of_latest h]

/-- Work that only looks at what is pending does all or nothing when it does nothing on the latest
version, and all or nothing of the scripts otherwise. -/
theorem allOrNothing_of_pending {work : DatabaseWork DatabaseFault Unit}
    (hfault : ∀ fault, db.pending = .error fault → work (db, told) = .error fault (db, told))
    (hlatest : ∀ (db : Database) told, db.version = Script.latestVersion →
      work (db, told) = .ok () (db, told))
    (hscripts : ∀ version s rest, db.pending = .ok (version, s :: rest) →
      (∃ db' told', work (db, told) = .ok () (db', told') ∧ BroughtUp db db') ∨
        ∃ fault told', work (db, told) = .error fault (db, told')) :
    AllOrNothing work db told := by
  cases hp : db.pending with
  | error fault => exact .inr ⟨fault, told, hfault fault hp⟩
  | ok found =>
    obtain ⟨version, scripts⟩ := found
    cases scripts with
    | nil =>
      have hl := latest_of_pending_nil hp
      exact .inl ⟨db, told, hlatest db told hl, .of_latest hl, fun told => hlatest db told hl⟩
    | cons s rest =>
      rcases hscripts version s rest hp with ⟨db', told', hrun, hup⟩ | hfailed
      · exact .inl ⟨db', told', hrun, hup, fun told => hlatest db' told hup.version⟩
      · exact .inr hfailed

theorem allOrNothing_migrate (db : Database) (told : List Event) :
    AllOrNothing migrate db told := by
  refine allOrNothing_of_pending (fun fault hp => ?_) (fun db told hl => migrate_of_latest hl told)
    fun version s rest hp => ?_
  · simp only [migrate, hp]
  · cases hr : Script.runAll (s :: rest) (db, told) with
    | ok u state =>
      exact .inl ⟨_, _, migrate_of_runAll hp (by simp) hr, broughtUp_of_runAll hp (by simp) hr⟩
    | error fault state => exact .inr ⟨fault, state.2, by simp only [migrate, hp, hr]⟩

/-- Against a hindrance, only a database that is up to date already opens. -/
theorem allOrNothing_migrateAgainst (hindrance : Hindrance) (db : Database) (told : List Event) :
    AllOrNothing (migrateAgainst hindrance) db told := by
  refine allOrNothing_of_pending (fun fault hp => ?_)
    (fun db told hl => migrateAgainst_of_latest hindrance hl told) fun version s rest hp => .inr ?_
  · simp only [migrateAgainst, hp]
  · cases hindrance with
    | atChange fault =>
      refine ⟨.migrationFailed s.version s.name (Statement.refusal fault db s.statements), told, ?_⟩
      simp only [migrateAgainst, hp]
    | atEnd fault =>
      cases hr : Script.runAll (s :: rest) (db, told) with
      | ok u state => exact ⟨.engine fault, state.2, by simp only [migrateAgainst, hp, hr]⟩
      | error fault' state => exact ⟨fault', state.2, by simp only [migrateAgainst, hp, hr]⟩

/-- A new database, and any with no object under the names that the scripts use, is brought up to
date. -/
theorem migrate_of_free (hv : db.version = 0) (told : List Event)
    (hr : ∀ name ∈ [linkTable, "idx_book_parents", "idx_book_pid"], db.relation? name = none)
    (hi : db.hasIndex linkTable = false) :
    ∃ db' told', migrate (db, told) = .ok () (db', told') := by
  have hp : db.pending = .ok (0, Script.all) := by
    rw [pending, versionNumber_natCast hv]
    rfl
  -- the indexes are made on what the first script made
  let first : Database :=
    { db with relations := db.relations ++ [(linkTable, .links .empty)] }
  have hlinks : Statement.runAll [.createLinks] (db, told) = .ok () (first, told) :=
    Statement.runAll_cons_of_make (Statement.makeLinks_of_free (hr _ (by simp)) hi)
  have hmade : (first.withVersion 1).relations = db.relations ++ [(linkTable, .links .empty)] := rfl
  have hbook : (first.withVersion 1).relation? linkTable = some (.links .empty) := by
    rw [relation?_of_append hmade (hr _ (by simp))]
    exact if_pos (beq_self_eq_true _)
  have hn : ∀ name ∈ ["idx_book_parents", "idx_book_pid"],
      (first.withVersion 1).relation? name = none := by
    intro name hname
    rw [relation?_of_append hmade (hr _ (List.mem_cons_of_mem _ hname)), if_neg]
    revert name
    decide +kernel
  obtain ⟨second, hindexes⟩ := Statement.runAll_of_links hbook
    [⟨"idx_book_parents", linkTable, "bid" :: Row.levelColumns⟩,
      ⟨"idx_book_pid", linkTable, ["bid", "pid"]⟩]
    (told ++ [Script.applied ⟨1, "book_outline", [.createLinks]⟩])
    (by simpa using hn) (by simp; decide +kernel)
  have hrun : ∃ state, Script.runAll Script.all (db, told) = .ok () state :=
    ⟨_, (Script.runAll_cons_of_ok hlinks).trans (Script.runAll_cons_of_ok hindexes)⟩
  obtain ⟨state, hrun⟩ := hrun
  exact ⟨_, _, migrate_of_runAll hp (by decide) hrun⟩

/-- Bringing a database up to date, with or without a hindrance, either gives it all that it should
have, after which there is nothing left to do, or leaves it as it was. It does succeed when no object
has a name that the scripts use. -/
theorem migrate_all_or_nothing (db : Database) (told : List Event) :
    AllOrNothing migrate db told ∧
      (∀ hindrance, AllOrNothing (migrateAgainst hindrance) db told) ∧
      (db.version = 0 → db.hasIndex linkTable = false →
        (∀ name ∈ [linkTable, "idx_book_parents", "idx_book_pid"], db.relation? name = none) →
        ∃ db' told', migrate (db, told) = .ok () (db', told')) :=
  ⟨allOrNothing_migrate db told, fun hindrance => allOrNothing_migrateAgainst hindrance db told,
    fun hv hi hr => migrate_of_free hv told hr hi⟩

end Database
end Outline
