import Outline.CommandLine.Demo
import Outline.CommandLine.Refusal
import Outline.Disk.Databases

/-!
One run of the command line on a disk.

A run tells the release, reads its arguments, starts a log if asked to, opens a database and prints
the contents of the small book in it. It stops at the first refusal.
-/
namespace Outline.CommandLine
set_option autoImplicit false

/-- What a run leaves behind for its caller. -/
structure Outcome where
  code : Nat
  stdout : String
  stderr : String
  deriving DecidableEq

/-- A run: its disk, the log that it started, and the database that it opened. -/
structure Process where
  disk : Disk
  log : Option LogFile := none
  opened : Option Opened := none

/-- The disk after a run has ended. -/
def Process.finish (p : Process) : Disk :=
  let d := match p.opened with
    | some o => p.disk.close o
    | none => p.disk
  match p.log with
  | some log => log.leave d
  | none => d

/-- Work of a run that may be refused. -/
abbrev Work := EStateM Refusal Process

/-- Tells events to the log. -/
def tell (es : List Event) : Work Unit :=
  modify fun p => { p with log := p.log.map (·.recordAll es) }

/-- Starts the log. -/
def startLog (directory : String) : Work Unit := fun p =>
  match LogFile.start none Level.info.name directory p.disk with
  | .error fault d => .error (.log fault) { p with disk := d }
  | .ok log d => .ok () { p with disk := d, log := some log }

/-- Opens the database of a name, or one in memory. -/
def openNamed (name : Option String) : Work Opened := do
  let p ← get
  let ((opened, told), d) := match name with
    | some name => p.disk.openDatabase name
    | none =>
      let (opened, told) := Database.openPlain .memory {}
      ((opened.map fun db => { place := none, database := db }, told), p.disk)
  set { p with disk := d, opened := opened.toOption }
  tell told
  match opened with
  | .ok o => return o
  | .error fault => throw (.database fault)

/-- The manager over a database. -/
def managerOf (db : Database) : Except Refusal Manager :=
  match db.check with
  | .error fault => .error (.store fault)
  | .ok () => (Manager.new (db.links?.getD .empty) demoContent {}).mapError .settings

/-- The contents of the small book in a database, which is kept as it was left. -/
def showBook (o : Opened) : Work (List ContentsLine) := do
  let m ← MonadExcept.ofExcept (managerOf o.database)
  let left (m : Manager) : Work Unit := do
    modify fun p =>
      { p with disk := p.disk.keep { o with database := o.database.withLinks m.table } }
    tell m.journal
  match demoBook m with
  | .ok contents m => do
    left m
    return contents
  | .error refusal m => do
    left m
    throw (.outline refusal)

/-- All that a run does. -/
def work (args : List String) : Work (List ContentsLine) := do
  let asked ← MonadExcept.ofExcept ((Arguments.read {} args).mapError .arguments)
  match asked.logDirectory with
  | none => pure ()
  | some directory => startLog directory
  showBook (← openNamed asked.database)

/-- The number of a page, on the right of three columns if it is short. -/
def column (nid : PageId) : List Char :=
  let digits := Decimal.chars nid.toInt
  List.replicate (3 - digits.length) ' ' ++ digits

/-- A line of contents. -/
def lineText (line : ContentsLine) : String :=
  String.ofList (column line.nid) ++ " " ++ line.label ++ "\n"

/-- The line that every run starts with. -/
def greeting : String := "booktree_core version=" ++ release ++ "\n"

/-- Runs the command line. -/
def run (args : List String) (d : Disk) : Outcome × Disk :=
  match work args { disk := d } with
  | .ok contents p => (⟨0, greeting ++ String.join (contents.map lineText), ""⟩, p.finish)
  | .error refusal p => (⟨1, greeting, "Error: " ++ refusal.text ++ "\n"⟩, p.finish)

end Outline.CommandLine
