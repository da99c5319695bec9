import Outline.Database.Relation

/-!
Databases: relations and indexes under names, and the version of what they are made for.

Names are found without regard to capital letters. Whether a database is fit for outline work is
decided by exact names.
-/
namespace Outline
set_option autoImplicit false

/-- An index over columns of a relation. -/
structure Index where
  name : String
  relation : String
  columns : List String
  deriving DecidableEq

/-- A database. The version is whatever number was written last. -/
structure Database where
  version : Int := 0
  relations : List (String × Relation) := []
  indexes : List Index := []
  deriving DecidableEq

namespace Database

/-- The name of the table of links. -/
def linkTable : String := "book"

/-- The relation that a name stands for, with the name that it was made by. -/
def find? (db : Database) (name : String) : Option (String × Relation) :=
  db.relations.find? fun r => sameName r.1 name

/-- The relation that a name stands for. -/
def relation? (db : Database) (name : String) : Option Relation := (db.find? name).map (·.2)

/-- Whether a name stands for an index. -/
def hasIndex (db : Database) (name : String) : Bool :=
  db.indexes.any fun index => sameName index.name name

/-- The database with another relation in place of the one that a name stands for. -/
def replace (db : Database) (name : String) (r : Relation) : Database :=
  { db with
    relations := db.relations.map fun old => if sameName old.1 name then (old.1, r) else old }

/-- The table of links, if that is what its name stands for. -/
def links? (db : Database) : Option Table :=
  match db.relation? linkTable with
  | some (.links t) => some t
  | _ => none

/-- The database with another table of links. -/
def withLinks (db : Database) (t : Table) : Database := db.replace linkTable (.links t)

/-- All objects by kind and name, in the order of the texts. -/
def objects (db : Database) : List String :=
  let relations := db.relations.map fun (name, r) => Relation.kind r ++ " " ++ name
  let indexes := db.indexes.map fun index => "index " ++ Index.name index
  (relations ++ indexes).mergeSort fun a b => decide (a ≤ b)

/-- The database with a row of the given cells in the table of links. -/
def insert (db : Database) (cs : Cells) : Except EngineFault Database :=
  match db.find? linkTable with
  | none => .error (.noSuchTable linkTable)
  | some (name, r) => (r.insert linkTable name cs).map (db.replace linkTable)

/-- The rows of what is called the table of links. -/
def linkCells (db : Database) : Except EngineFault (List (List Cell)) :=
  match db.relation? linkTable with
  | none => .error (.noSuchTable linkTable)
  | some r => r.linkCells

/-- The database with a version written. One that does not fit into 32 bits is written as zero. -/
def withVersion (db : Database) (version : Int) : Database :=
  { db with version := if Word.fits32 version then version else 0 }

/-- The version as a number without a sign. -/
def versionNumber (db : Database) : Except EngineFault Nat :=
  if db.version < 0 then .error (.outOfRange db.version 0) else .ok db.version.toNat

/-- Settings that are the same for every open database. -/
def standardSettings : List (String × Int) :=
  [("application_id", 0), ("auto_vacuum", 0), ("busy_timeout", 5000), ("cache_size", -2000),
   ("foreign_keys", 1), ("freelist_count", 0), ("journal_size_limit", -1), ("page_size", 4096),
   ("query_only", 0), ("recursive_triggers", 0), ("synchronous", 2), ("temp_store", 0),
   ("wal_autocheckpoint", 1000)]

/-- A setting of an open database, by its name. Every object that was made counts as a version of
the schema. -/
def setting? (db : Database) (name : String) : Option Int :=
  match name.map Char.toLower with
  | "user_version" => some db.version
  | "schema_version" => some ((db.relations.length + db.indexes.length : Nat) : Int)
  | name => standardSettings.lookup name

end Database
end Outline
