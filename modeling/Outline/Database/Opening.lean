import Outline.Database.Migration

/-!
Opening a database, and telling whether it is fit for outline work.

What was found may be no database, or one that cannot be changed. Such a one opens all the same when
there is nothing to bring up to date.
-/
namespace Outline
set_option autoImplicit false

/-- Where an open database is kept. -/
inductive Keeping where
  | file
  | memory
  deriving DecidableEq

/-- The name of a way of keeping. -/
def Keeping.name : Keeping → String
  | .file => "file"
  | .memory => "memory"

/-- What was found where a database should be. -/
structure Found where
  content : Except EngineFault Database
  hindrance : Option Hindrance := none

/-- The refusal of the first of some statements that would change a database when no change is
allowed. When none of them would, the version is what cannot be written. -/
def Statement.refusal (fault : EngineFault) (db : Database) : List Statement → EngineFault
  | [] => fault
  | s :: rest =>
    match s.run (db, []) with
    | .error fault _ => fault
    | .ok () (after, _) => if after = db then refusal fault db rest else fault

namespace Database

/-- Brings a database up to date against a hindrance. -/
def migrateAgainst (hindrance : Hindrance) : DatabaseWork DatabaseFault Unit := fun (db, told) =>
  match hindrance, db.pending with
  | _, .error fault => .error fault (db, told)
  | _, .ok (_, []) => .ok () (db, told)
  | .atChange fault, .ok (_, s :: _) =>
    .error (.migrationFailed s.version s.name (Statement.refusal fault db s.statements)) (db, told)
  | .atEnd fault, .ok (_, scripts) =>
    match Script.runAll scripts (db, told) with
    | .ok () (_, told) => .error (.engine fault) (db, told)
    | .error fault (_, told) => .error fault (db, told)

/-- Brings what was found up to date. -/
def bringUp (found : Found) (told : List Event) : EStateM.Result DatabaseFault Told Unit :=
  match found.content, found.hindrance with
  | .error fault, _ => .error (.engine fault) ({}, told)
  | .ok db, none => migrate (db, told)
  | .ok db, some hindrance => migrateAgainst hindrance (db, told)

/-- An event of opening. -/
def openEvent (level : Level) (status : String) (keeping : Keeping)
    (details : List (String × String)) : Event :=
  ⟨level, "db_open", "db", status, ("mode", keeping.name) :: details⟩

/-- What is told when a database cannot be opened. -/
def openFailed (keeping : Keeping) (code text : String) : Event :=
  openEvent .error "error" keeping [Event.duration, ("error_code", code), ("error", text)]

/-- Opens what was found, if anything was, brings it up to date, and tells about it. -/
def openFound (keeping : Keeping) (found : Except EngineFault Found) :
    Except DatabaseFault Database × List Event :=
  let start := openEvent .info "start" keeping []
  match found with
  | .error fault =>
    (.error (.engine fault), [start, openFailed keeping "db_open_failed" fault.message])
  | .ok found =>
    match bringUp found [start] with
    | .ok () (db, told) => (.ok db, told ++ [openEvent .info "ok" keeping [Event.duration]])
    | .error fault (_, told) =>
      (.error fault, told ++ [openFailed keeping "db_bootstrap_failed" fault.message])

/-- Opens a database without hindrance. -/
def openPlain (keeping : Keeping) (db : Database) : Except DatabaseFault Database × List Event :=
  openFound keeping (.ok { content := .ok db })

/-- Whether a table has exactly this name. -/
def hasTable (db : Database) (name : String) : Bool :=
  db.relations.any fun r => r.1 == name && r.2.isTable

/-- The columns of what a name stands for. -/
def columnsOf (db : Database) (name : String) : List String :=
  ((db.relation? name).map Relation.columns).getD []

/-- Whether a database is fit for outline work: of the latest version, and with all columns of the
table of links. -/
def check (db : Database) : Except StoreFault Unit :=
  match db.versionNumber with
  | .error fault => .error (.engine fault)
  | .ok version =>
    if version ≠ Script.latestVersion then
      .error (.versionMismatch Script.latestVersion version)
    else if !db.hasTable linkTable then .error (.tableMissing linkTable)
    else match Row.columns.find? (!(db.columnsOf linkTable).contains ·) with
      | some column => .error (.columnMissing linkTable column)
      | none => .ok ()

end Database
end Outline
