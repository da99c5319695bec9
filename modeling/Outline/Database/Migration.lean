import Outline.Database.Basic
import Outline.Event
import Outline.Text.Decimal

/-!
Bringing a database up to date.

Each script takes a database from one version to the next. Those that are still to be run are run in
one transaction: when one of them fails, the database is what it was before the first. What was told
about the scripts before it stays told.
-/
namespace Outline
set_option autoImplicit false

/-- A statement that makes an object. -/
inductive Statement where
  | createLinks
  | createIndex (index : Index)
  deriving DecidableEq

/-- A script, which takes a database to its version. -/
structure Script where
  version : Nat
  name : String
  statements : List Statement
  deriving DecidableEq

/-- A database, and what was told about the work on it, the oldest first. -/
abbrev Told := Database × List Event

/-- Work on a database that may be refused. -/
abbrev DatabaseWork (ε α : Type) := EStateM ε Told α

namespace Statement

/-- Makes the table of links, unless a relation has its name already. No index may have it. -/
def makeLinks (db : Database) : Except EngineFault Database :=
  if (db.relation? Database.linkTable).isSome then .ok db
  else if db.hasIndex Database.linkTable then .error (.indexNamed Database.linkTable)
  else .ok { db with relations := db.relations ++ [(Database.linkTable, .links .empty)] }

/-- Makes an index, unless there is one of its name. -/
def makeIndex (index : Index) (db : Database) : Except EngineFault Database :=
  match db.relation? index.relation with
  | none => .error (.noSuchTable ("main." ++ index.relation))
  | some r =>
    if !r.isTable then .error .viewIndexed
    else if (db.relation? index.name).isSome then .error (.nameTaken index.name)
    else if db.hasIndex index.name then .ok db
    else match index.columns.find? (!r.hasColumn ·) with
      | some column => .error (.noSuchColumn column)
      | none => .ok { db with indexes := db.indexes ++ [index] }

/-- Makes the object of a statement. -/
def make : Statement → Database → Except EngineFault Database
  | .createLinks => makeLinks
  | .createIndex index => makeIndex index

/-- Runs a statement. -/
def run (s : Statement) : DatabaseWork EngineFault Unit := fun (db, told) =>
  match s.make db with
  | .ok db => .ok () (db, told)
  | .error fault => .error fault (db, told)

/-- Runs statements in order. -/
def runAll : List Statement → DatabaseWork EngineFault Unit
  | [] => return ()
  | s :: rest => do
    s.run
    runAll rest

end Statement

namespace Script

/-- What is told about a script that was run. -/
def applied (s : Script) : Event :=
  ⟨.info, "db_migrate", "db", "applied",
    [("version", Decimal.text s.version), ("name", s.name)]⟩

/-- Runs a script and writes its version. -/
def run (s : Script) : DatabaseWork DatabaseFault Unit := fun told =>
  match Statement.runAll s.statements told with
  | .ok () (db, told) => .ok () (db.withVersion s.version, told ++ [s.applied])
  | .error fault told => .error (.migrationFailed s.version s.name fault) told

/-- Runs scripts in order. -/
def runAll : List Script → DatabaseWork DatabaseFault Unit
  | [] => return ()
  | s :: rest => do
    s.run
    runAll rest

/-- All scripts: the table of links, then the indexes for the chains and for the children. -/
def all : List Script :=
  [⟨1, "book_outline", [.createLinks]⟩,
   ⟨2, "book_tree_indexes",
    [.createIndex ⟨"idx_book_parents", Database.linkTable, "bid" :: Row.levelColumns⟩,
     .createIndex ⟨"idx_book_pid", Database.linkTable, ["bid", "pid"]⟩]⟩]

/-- The version of a database that all scripts have been run on. -/
def latestVersion : Nat := (all.getLast?.map version).getD 0

/-- The scripts that a database of a version has still to be taken through. -/
def pending (version : Nat) : List Script := all.filter (version < ·.version)

end Script

namespace Database

/-- What is told when a database has been brought up to date. -/
def migrated (fromVersion : Nat) : Event :=
  ⟨.info, "db_migrate", "db", "ok",
    [("from_version", Decimal.text fromVersion),
      ("to_version", Decimal.text Script.latestVersion)]⟩

/-- The version of a database, and the scripts that it has still to be taken through. One that is
newer than all scripts is refused. -/
def pending (db : Database) : Except DatabaseFault (Nat × List Script) :=
  match db.versionNumber with
  | .error fault => .error (.engine fault)
  | .ok version =>
    if Script.latestVersion < version then .error (.versionTooNew version Script.latestVersion)
    else .ok (version, Script.pending version)

/-- Brings a database up to date. -/
def migrate : DatabaseWork DatabaseFault Unit := fun (db, told) =>
  match db.pending with
  | .error fault => .error fault (db, told)
  | .ok (_, []) => .ok () (db, told)
  | .ok (version, scripts) =>
    match Script.runAll scripts (db, told) with
    | .ok () (db, told) => .ok () (db, told ++ [migrated version])
    | .error fault (_, told) => .error fault (db, told)

end Database
end Outline
