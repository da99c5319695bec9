import Outline.Database.Opening
import Outline.Disk.Address
import Outline.Disk.Basic

/-!
Databases on a disk.

A database is found by the names of its path alone: a step back takes the last name away, whatever
it stood for. A database that is missing is made, empty, in a directory that is there.

Two files may stand beside a database: a journal, which is left of changes that were not finished,
and a log of changes that have not found their way into the database yet. What is no such thing but
stands in its place is taken for one when the database is read for the first time.
-/
namespace Outline
set_option autoImplicit false

/-- An open database: where it is, if not in memory only, what it holds, what stands in the way of
changing it, and the log beside it, if one is in use. -/
structure Opened where
  place : Option Place
  database : Database
  hindrance : Option Hindrance := none
  log : Option Place := none
  deriving DecidableEq

namespace Opened

/-- An open database with a row of the given cells in the table of links. -/
def insert (o : Opened) (cs : Cells) : Except EngineFault Opened := do
  let db ← o.database.insert cs
  match o.hindrance with
  | some (.atChange fault) | some (.atEnd fault) => throw fault
  | none => return { o with database := db }

/-- Brings an open database up to date, and tells about it. -/
def migrate (o : Opened) : Except DatabaseFault Unit × List Event × Opened :=
  match Database.bringUp { content := .ok o.database, hindrance := o.hindrance } [] with
  | .ok () (db, told) => (.ok (), told, { o with database := db })
  | .error fault (db, told) => (.error fault, told, { o with database := db })

end Opened

/-- The place of a file beside another one. -/
def Place.beside (place : Place) (ending : String) : Place :=
  place.dropLast ++ [place.getLast?.getD "" ++ ending]

/-- The bytes of the path of a place. -/
def Place.byteSize (place : Place) : Nat :=
  place.foldl (fun n name => n + 1 + name.utf8ByteSize) 0

namespace Disk

/-- The bytes that the way to a database may have at any point. -/
def maxWayBytes : Nat := 511

/-- The bytes that the path of a database may have. There has to be room for an ending. -/
def maxDatabaseBytes : Nat := 504

/-- The place that a database's path names. Every place on the way is looked at. One that is missing
does no harm, since the path may lead back from it. -/
def approach (d : Disk) (place : Place) : List String → Option Place
  | [] => some place
  | name :: rest =>
    if name = "." then d.approach place rest
    else if name = ".." then d.approach place.dropLast rest
    else
      let next := place ++ [name]
      if maxWayBytes < Place.byteSize next then none
      else match d.follow next with
        | .ok _ | .error .missing => d.approach next rest
        | .error _ => none

/-- The place of a database, unless there cannot be one. -/
def databasePlace? (d : Disk) (path : String) : Option Place :=
  (d.approach (if Path.isAbsolute path then [] else d.home) (Path.names path)).filter fun place =>
    !place.isEmpty && decide (Place.byteSize place ≤ maxDatabaseBytes)

/-- Opens the file of a database, which is made if it may be. -/
def openFile (address : Address) (name : String) : EStateM EngineFault Disk (Place × Node) :=
  fun d =>
    match d.databasePlace? address.path with
    | none => .error (.cannotOpen name) d
    | some place =>
      match d.node? place, d.node? place.dropLast with
      | some node, _ =>
        if !node.isDirectory then .ok (place, node) d
        else if address.access = .read then .error (.fileFailed .opening) d
        else .error (.cannotOpen name) d
      | none, some (.directory false _) =>
        if address.access = .make then .ok (place, .database {}) (d.put place (.database {}))
        else .error (.cannotOpen name) d
      | none, _ => .error (.cannotOpen name) d

/-- What stands beside a file, unless it is an empty file. -/
def beside? (d : Disk) (place : Place) (ending : String) : Option Node :=
  (d.node? (place.beside ending)).filter fun node =>
    match node with
    | .sink _ => true
    | node => !node.isEmptyFile

/-- The ending of a journal's name. -/
def journalEnding : String := "-journal"

/-- The ending of a log's name. -/
def logEnding : String := "-wal"

/-- Does away with a journal before a file is read. -/
def settleJournal (place : Place) (isEmpty readOnly : Bool) : EStateM EngineFault Disk Unit :=
  fun d =>
    match d.beside? place journalEnding with
    | none => .ok () d
    | some node =>
      if isEmpty && (readOnly || node.isDirectory) then .ok () d
      else if node.isDirectory then .error (.fileFailed .reading) d
      else if readOnly then .error .readOnlyJournal d
      else .ok () (d.remove (place.beside journalEnding))

/-- Takes a log into use before a file is read, or does away with it if the file is empty. -/
def settleLog (place : Place) (isEmpty mayHaveLog : Bool) :
    EStateM EngineFault Disk (Option Place) := fun d =>
  match d.beside? place logEnding with
  | none => .ok none d
  | some node =>
    if isEmpty then
      if node.isDirectory then .error (.fileFailed .deleting) d
      else .ok none (d.remove (place.beside logEnding))
    else if node.isDirectory || !mayHaveLog then .error .cannotOpenBeside d
    else .ok (some (place.beside logEnding)) d

/-- What stands in the way of writing a journal. -/
def journalHindrance? (d : Disk) (place : Place) : Option Hindrance :=
  let journal := place.beside journalEnding
  if maxNameBytes < (journal.getLast?.getD "").utf8ByteSize ∨
      (d.node? journal).any Node.isDirectory then
    some (.atChange .cannotOpenBeside)
  else none

/-- What a node holds as a database. -/
def contentOf : Node → Except EngineFault Database
  | .database db => .ok db
  | .frozen | .sink _ => .ok {}
  | .directory .. | .text => .error .notDatabase

/-- What stands in the way of changing a file with a given access. -/
def hindrance? (d : Disk) (place : Place) (node : Node) (readOnly : Bool) : Option Hindrance :=
  if readOnly then some (.atChange .readOnly)
  else match node with
    | .frozen => some (.atChange .readOnly)
    | .sink fault => some (.atEnd fault)
    | _ => d.journalHindrance? place

/-- What is found in a file, and the log beside it. -/
def look (place : Place) (node : Node) (address : Address) :
    EStateM EngineFault Disk (Found × Option Place) := do
  let readOnly := address.isReadOnly
  if address.isFixed then
    return ({ content := contentOf node, hindrance := some (.atChange .readOnly) }, none)
  settleJournal place node.isEmptyFile readOnly
  let log ← settleLog place node.isEmptyFile address.mayHaveLog
  let d ← get
  return ({ content := contentOf node, hindrance := d.hindrance? place node readOnly }, log)

/-- The disk with a database as it was left. A log in use is no database once it is written to. -/
def keep (d : Disk) (o : Opened) : Disk :=
  match o.place, o.hindrance with
  | some place, none =>
    if d.holds place o.database then d
    else ((o.log.map fun log => d.put log .text).getD d).put place (.database o.database)
  | _, _ => d

/-- The disk after an open database is closed. A log goes away then, unless nothing may be
changed. -/
def close (d : Disk) (o : Opened) : Disk :=
  match o.log, o.hindrance with
  | some log, none => d.remove log
  | _, _ => d

/-- What is left when one database is closed after another was opened. A log stays while its file is
open. A database whose own file was the other's log can be read on, but not changed. -/
def closeAfter (d : Disk) (old new : Opened) : Opened × Disk :=
  if old.place = new.place then (new, d)
  else if new.place.isSome ∧ new.place = old.log ∧ old.hindrance = none then
    ({ new with hindrance := some (.atChange .readOnly) }, d.close old)
  else (new, d.close old)

/-- A database that was opened, and what was told, or only what was told. -/
abbrev OpenResult := Except DatabaseFault Opened × List Event

/-- Opens what was found at a place, or in memory. -/
def openFound (place log : Option Place) (found : Found) (d : Disk) : OpenResult × Disk :=
  let opened (db : Database) : Opened := ⟨place, db, found.hindrance, log⟩
  match Database.openFound .file (.ok found) with
  | (.ok db, told) => ((.ok (opened db), told), d.keep (opened db))
  | (.error fault, told) => ((.error fault, told), d.close (opened {}))

/-- Opens the database of a name, which is kept up to date where it is. -/
def openDatabase (d : Disk) (name : String) : OpenResult × Disk :=
  let refused (fault : EngineFault) (d : Disk) : OpenResult × Disk :=
    ((.error (.engine fault), (Database.openFound .file (.error fault)).2), d)
  match (Text.utf8 name).findIdx? (· == 0), Address.ofName name with
  | some position, _ => refused (.nulCharacter position) d
  | none, .error fault => refused (.badAddress fault) d
  | none, .ok address =>
    if address.inMemory then
      let hindrance := if address.isReadOnly then some (.atChange .readOnly) else none
      openFound none none { content := .ok {}, hindrance := hindrance } d
    else match openFile address name d with
      | .error fault d => refused fault d
      | .ok (place, node) d =>
        match look place node address d with
        | .error fault d => openFound (some place) none { content := .error fault } d
        | .ok (found, log) d => openFound (some place) log found d

end Disk
end Outline
