import Outline.Proofs.Database.Migration

/-!
Which open databases are fit for outline work.

Bringing a database up to date adds a table of links where nothing has its name. Whatever has the
name already, in capital letters or small ones, is taken for that table as it is, and only the
columns of the indexes are asked for. The check of the columns asks for exact names and for all of
them. So the two agree on a database that had no such name, and on one that was fit before; nothing
here says that every database that opens is fit, and the last theorem shows that this is not so.
-/
namespace Outline
set_option autoImplicit false

/-- Whether the relations are kept by making the objects of some statements, or a table of links is
added to them, by a statement that makes it, where no relation has its name. -/
def Statement.AddsLinks (ss : List Statement) (db db' : Database) : Prop :=
  db'.relations = db.relations ∨
    Statement.createLinks ∈ ss ∧ db.relation? Database.linkTable = none ∧
      db'.relations = db.relations ++ [(Database.linkTable, .links .empty)]

namespace Statement

variable {s : Statement} {ss ss' : List Statement} {index : Index} {db db' db'' : Database}
  {told told' : List Event}

theorem relation?_congr (h : db'.relations = db.relations) (name : String) :
    db'.relation? name = db.relation? name := by
  rw [Database.relation?, Database.find?, h]
  rfl

/-- What was added has the name, so that nothing is added after it. -/
theorem AddsLinks.append (h : AddsLinks ss db db') (h' : AddsLinks ss' db' db'') :
    AddsLinks (ss ++ ss') db db'' := by
  rcases h with hsame | ⟨hs, hnone, hadded⟩
  · rcases h' with hsame' | ⟨hs, hnone, hadded⟩
    · exact .inl (hsame'.trans hsame)
    · refine .inr ⟨List.mem_append_right _ hs, ?_, ?_⟩
      · rw [← hnone, relation?_congr hsame]
      · rw [hadded, hsame]
  · rcases h' with hsame' | ⟨_, hnone', _⟩
    · exact .inr ⟨List.mem_append_left _ hs, hnone, hsame'.trans hadded⟩
    · rw [Database.relation?_of_append hadded hnone, if_pos (by decide +kernel)] at hnone'
      cases hnone'

theorem addsLinks_of_makeLinks (h : makeLinks db = .ok db') : AddsLinks [.createLinks] db db' := by
  unfold makeLinks at h
  split at h
  · cases h
    exact .inl rfl
  · next hnone =>
    split at h
    · cases h
    · cases h
      exact .inr ⟨List.mem_singleton_self _, by simpa using hnone, rfl⟩

theorem relations_of_makeIndex (h : makeIndex index db = .ok db') :
    db'.relations = db.relations := by
  unfold makeIndex at h
  split at h
  · cases h
  · split at h
    · cases h
    · split at h
      · cases h
      · split at h
        · cases h
          rfl
        · split at h
          · cases h
          · cases h
            rfl

theorem addsLinks_of_make (h : s.make db = .ok db') : AddsLinks [s] db db' := by
  cases s with
  | createLinks => exact addsLinks_of_makeLinks h
  | createIndex index => exact .inl (relations_of_makeIndex h)

theorem addsLinks_of_runAll (h : runAll ss (db, told) = .ok () (db', told')) :
    AddsLinks ss db db' := by
  induction ss generalizing db told with
  | nil =>
    cases h
    exact .inl rfl
  | cons s rest ih =>
    obtain ⟨_, ⟨first, told₁⟩, hs, hrest⟩ := ok_of_bind_ok h
    exact (addsLinks_of_make (make_of_run hs).1).append (ih hrest)

end Statement

namespace Script

variable {s : Script} {scripts : List Script} {db db' : Database} {told told' : List Event}
  {version : Nat}

theorem addsLinks_of_run (h : s.run (db, told) = .ok () (db', told')) :
    Statement.AddsLinks s.statements db db' := by
  cases hs : Statement.runAll s.statements (db, told) with
  | error fault state => simp [run, hs] at h
  | ok _ state =>
    obtain ⟨rfl, -⟩ : state.1.withVersion s.version = db' ∧ _ := by simpa [run, hs] using h
    have hadds : Statement.AddsLinks s.statements db state.1 := Statement.addsLinks_of_runAll hs
    exact hadds

theorem addsLinks_of_runAll (h : runAll scripts (db, told) = .ok () (db', told')) :
    Statement.AddsLinks (scripts.flatMap statements) db db' := by
  induction scripts generalizing db told with
  | nil =>
    cases h
    exact .inl rfl
  | cons s rest ih =>
    obtain ⟨_, ⟨first, told₁⟩, hs, hrest⟩ := ok_of_bind_ok h
    rw [List.flatMap_cons]
    exact (addsLinks_of_run hs).append (ih hrest)

/-- Only a database of no version at all has the script to be run that makes the table of links. -/
theorem eq_zero_of_createLinks (hle : version ≤ latestVersion)
    (h : Statement.createLinks ∈ (pending version).flatMap statements) : version = 0 := by
  have hall : ∀ v ≤ latestVersion,
      Statement.createLinks ∈ (pending v).flatMap statements → v = 0 := by decide
  exact hall version hle h

end Script

namespace Database

variable {db db' : Database} {told told' : List Event} {hindrance : Option Hindrance}
  {keeping : Keeping}

/-- What opening does to the relations, when it succeeds. -/
structure OpenedFrom (db db' : Database) : Prop where
  version : db'.version = Script.latestVersion
  table : db.version < Script.latestVersion → db'.Tabled linkTable
  relations : db'.relations = db.relations ∨
    db.version = 0 ∧ db.relation? linkTable = none ∧
      db'.relations = db.relations ++ [(linkTable, .links .empty)]

theorem OpenedFrom.of_latest (h : db.version = Script.latestVersion) : OpenedFrom db db :=
  ⟨h, fun hlt => absurd h (Int.ne_of_lt hlt), .inl rfl⟩

theorem openedFrom_of_migrate (h : migrate (db, told) = .ok () (db', told')) :
    OpenedFrom db db' := by
  cases hp : db.pending with
  | error fault => simp [migrate, hp] at h
  | ok found =>
    obtain ⟨version, scripts⟩ := found
    cases scripts with
    | nil =>
      simp only [migrate, hp] at h
      cases h
      exact .of_latest (latest_of_pending_nil hp)
    | cons s rest =>
      cases hr : Script.runAll (s :: rest) (db, told) with
      | error fault state => simp [migrate, hp, hr] at h
      | ok _ state =>
        simp only [migrate, hp, hr] at h
        cases h
        have hup := broughtUp_of_runAll hp (by simp) hr
        obtain ⟨hversion, hle, hscripts⟩ := eq_of_pending hp
        refine ⟨hup.version, hup.table, ?_⟩
        rcases Script.addsLinks_of_runAll hr with hsame | ⟨hmade, hadded⟩
        · exact .inl hsame
        · rw [hscripts] at hmade
          exact .inr ⟨by rw [hversion, Script.eq_zero_of_createLinks hle hmade]; rfl, hadded⟩

/-- Against a hindrance only a database opens of which nothing is pending. -/
theorem openedFrom_of_migrateAgainst {against : Hindrance}
    (h : migrateAgainst against (db, told) = .ok () (db', told')) : OpenedFrom db db' := by
  cases hp : db.pending with
  | error fault => cases against <;> simp [migrateAgainst, hp] at h
  | ok found =>
    obtain ⟨version, scripts⟩ := found
    cases scripts with
    | nil =>
      have hlatest := latest_of_pending_nil hp
      rw [migrateAgainst_of_latest against hlatest] at h
      cases h
      exact .of_latest hlatest
    | cons s rest =>
      cases against with
      | atChange fault => simp [migrateAgainst, hp] at h
      | atEnd fault =>
        cases hr : Script.runAll (s :: rest) (db, told) <;> simp [migrateAgainst, hp, hr] at h

theorem openedFrom_of_openFound
    (h : openFound keeping (.ok ⟨.ok db, hindrance⟩) = (.ok db', told)) : OpenedFrom db db' := by
  cases hb : bringUp ⟨.ok db, hindrance⟩ [openEvent .info "start" keeping []] with
  | error fault state => simp [openFound, hb] at h
  | ok _ state =>
    obtain ⟨opened, told'⟩ := state
    obtain ⟨rfl, -⟩ : opened = db' ∧ _ := by simpa [openFound, hb] using h
    cases hindrance with
    | none => exact openedFrom_of_migrate hb
    | some against => exact openedFrom_of_migrateAgainst hb

/-- Whether there is a table with exactly the name of the table of links, and exactly the names of
all its columns are those of columns that the name stands for. -/
structure HoldsLinks (db : Database) : Prop where
  table : db.hasTable linkTable = true
  columns : ∀ column ∈ Row.columns, column ∈ db.columnsOf linkTable

instance (db : Database) : Decidable db.HoldsLinks :=
  decidable_of_iff
    (db.hasTable linkTable = true ∧ ∀ column ∈ Row.columns, column ∈ db.columnsOf linkTable)
    ⟨fun ⟨htable, hcolumns⟩ => ⟨htable, hcolumns⟩, fun h => ⟨h.table, h.columns⟩⟩

/-- Why a database of the latest version can be unfit: the table is missing, or a column is. -/
def LacksLinks (db : Database) : StoreFault → Prop
  | .tableMissing table => table = linkTable ∧ db.hasTable linkTable = false
  | .columnMissing table column =>
    table = linkTable ∧ column ∈ Row.columns ∧ column ∉ db.columnsOf linkTable
  | _ => False

/-- In a database of the latest version only the table and its columns are asked for. -/
theorem check_of_latest (hv : db.version = Script.latestVersion) :
    db.check =
      if !db.hasTable linkTable then .error (.tableMissing linkTable)
      else match Row.columns.find? (!(db.columnsOf linkTable).contains ·) with
        | some column => .error (.columnMissing linkTable column)
        | none => .ok () := by
  rw [check, versionNumber_natCast hv]
  exact if_neg (not_not_intro rfl)

theorem check_ok_iff (hv : db.version = Script.latestVersion) :
    db.check = .ok () ↔ db.HoldsLinks := by
  rw [check_of_latest hv]
  constructor
  · intro hcheck
    cases htable : db.hasTable linkTable with
    | false =>
      rw [htable] at hcheck
      cases hcheck
    | true =>
      cases hfind : Row.columns.find? (!(db.columnsOf linkTable).contains ·) with
      | some column =>
        rw [htable, hfind] at hcheck
        cases hcheck
      | none =>
        refine ⟨htable, fun column hcolumn => ?_⟩
        simpa using List.find?_eq_none.1 hfind column hcolumn
  · intro h
    have hall : Row.columns.find? (!(db.columnsOf linkTable).contains ·) = none := by
      rw [List.find?_eq_none]
      intro column hcolumn
      simpa using h.columns column hcolumn
    rw [h.table, hall]
    rfl

theorem lacksLinks_of_check {fault : StoreFault} (hv : db.version = Script.latestVersion)
    (h : db.check = .error fault) : db.LacksLinks fault := by
  rw [check_of_latest hv] at h
  cases htable : db.hasTable linkTable with
  | false =>
    rw [htable] at h
    cases h
    exact ⟨rfl, htable⟩
  | true =>
    cases hfind : Row.columns.find? (!(db.columnsOf linkTable).contains ·) with
    | none =>
      rw [htable, hfind] at h
      cases h
    | some column =>
      rw [htable, hfind] at h
      cases h
      refine ⟨rfl, List.mem_of_find?_eq_some hfind, ?_⟩
      simpa using List.find?_some hfind

theorem hasTable_congr (h : db'.relations = db.relations) (name : String) :
    db'.hasTable name = db.hasTable name := by
  rw [hasTable, h]
  rfl

theorem columnsOf_congr (h : db'.relations = db.relations) (name : String) :
    db'.columnsOf name = db.columnsOf name := by
  rw [columnsOf, Statement.relation?_congr h]
  rfl

theorem holdsLinks_congr (h : db'.relations = db.relations) : db'.HoldsLinks ↔ db.HoldsLinks := by
  constructor
  · rintro ⟨htable, hcolumns⟩
    rw [hasTable_congr h] at htable
    rw [columnsOf_congr h] at hcolumns
    exact ⟨htable, hcolumns⟩
  · rintro ⟨htable, hcolumns⟩
    rw [← hasTable_congr h] at htable
    rw [← columnsOf_congr h] at hcolumns
    exact ⟨htable, hcolumns⟩

theorem lacksLinks_congr (h : db'.relations = db.relations) (fault : StoreFault) :
    db'.LacksLinks fault ↔ db.LacksLinks fault := by
  cases fault <;> simp only [LacksLinks, hasTable_congr h, columnsOf_congr h]

/-- The table of links that was added has its exact name and all its columns. -/
theorem holdsLinks_of_added (hnone : db.relation? linkTable = none)
    (h : db'.relations = db.relations ++ [(linkTable, .links .empty)]) : db'.HoldsLinks := by
  have hfound : db'.relation? linkTable = some (.links .empty) := by
    rw [relation?_of_append h hnone, if_pos (by decide +kernel)]
  constructor
  · rw [hasTable, h, List.any_append]
    simp [Relation.isTable]
  · intro column hcolumn
    rw [columnsOf, hfound]
    exact hcolumn

/-- A database that was opened is fit for outline work exactly when it held the table of links with
all its columns, under their exact names, or was of no version and held nothing of that name. If it
is unfit, then because the table or a column is missing, never for its version. -/
theorem check_opened_iff (h : openFound keeping (.ok ⟨.ok db, hindrance⟩) = (.ok db', told)) :
    (db'.check = .ok () ↔ db.HoldsLinks ∨ db.version = 0 ∧ db.relation? linkTable = none) ∧
      (∀ fault, db'.check = .error fault → db.LacksLinks fault) := by
  have ho := openedFrom_of_openFound h
  rcases ho.relations with hsame | ⟨hzero, hnone, hadded⟩
  · refine ⟨?_, fun fault hfault => (lacksLinks_congr hsame fault).1
      (lacksLinks_of_check ho.version hfault)⟩
    rw [check_ok_iff ho.version, holdsLinks_congr hsame]
    refine ⟨.inl, fun hfit => hfit.resolve_right fun ⟨hzero, hnone⟩ => ?_⟩
    -- the scripts left something under the name, and nothing was added
    obtain ⟨r, hr, -⟩ := ho.table (hzero ▸ by decide)
    rw [Statement.relation?_congr hsame, hnone] at hr
    cases hr
  · have hcheck := (check_ok_iff ho.version).2 (holdsLinks_of_added hnone hadded)
    refine ⟨⟨fun _ => .inr ⟨hzero, hnone⟩, fun _ => hcheck⟩, fun fault hfault => ?_⟩
    rw [hcheck] at hfault
    cases hfault

/-- A database of no version with one table and all indexes still to be made. -/
def unversioned (r : Relation) : Found := ⟨.ok ⟨0, [(linkTable, r)], []⟩, none⟩

/-- The same database with the indexes, of the latest version. -/
def indexed (r : Relation) : Database :=
  ⟨2, [(linkTable, r)],
    [⟨"idx_book_parents", linkTable, "bid" :: Row.levelColumns⟩,
      ⟨"idx_book_pid", linkTable, ["bid", "pid"]⟩]⟩

/-- A table of links made long ago, in a database that was never given a version. -/
theorem check_opened_iff_madeLongAgo :
    (openFound .file (.ok (unversioned (.links .empty)))).1 = .ok (indexed (.links .empty)) ∧
      (indexed (.links .empty)).check = .ok () := by
  have hopened : (openFound .file (.ok (unversioned (.links .empty)))).1 =
      .ok (indexed (.links .empty)) := by decide +kernel
  have hholds : HoldsLinks ⟨0, [(linkTable, .links .empty)], []⟩ := by decide +kernel
  exact ⟨hopened, (check_opened_iff (Prod.ext hopened rfl)).1.2 (.inl hholds)⟩

/-- A table that has the columns of the indexes and no others is taken as it is. -/
theorem opened_unfit :
    ¬ ∀ keeping found db told, openFound keeping (.ok found) = (.ok db, told) →
      db.check = .ok () := by
  intro hready
  let bare : Relation := .bare ("bid" :: "pid" :: Row.levelColumns) []
  have hopened : (openFound .file (.ok (unversioned bare))).1 = .ok (indexed bare) := by
    decide +kernel
  have hunfit : (indexed bare).check = .error (.columnMissing linkTable "nid") := by decide +kernel
  rw [hready _ _ _ _ (Prod.ext hopened rfl)] at hunfit
  cases hunfit

end Database
end Outline
