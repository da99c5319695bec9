import Outline.Disk.Basic
import Outline.Event
import Outline.Release
import Outline.Text.Blank

/-!
The log file of a process.

It is started at most once. Asking again for the same level and directory is allowed; asking for
others is refused, the directory being looked at first. Events that matter less than its level are
left out. A process that ends soon writes its log only as far as it is not held back.
-/
namespace Outline
set_option autoImplicit false

/-- The level of a name, in capital or small letters. -/
def Level.ofName? (name : String) : Option Level :=
  match name with
  | "trace" => some .trace
  | "debug" => some .debug
  | "info" => some .info
  | "warn" => some .warn
  | "warning" => some .warn
  | "error" => some .error
  | _ => none

/-- A log file. The directory is as it was first asked for. Where no file can be made, nothing is
written. -/
structure LogFile where
  level : Level
  directory : String
  file : Option Place
  lines : List String := []
  size : Nat := 0
  deriving DecidableEq

/-- Why a log file was not started. -/
inductive LogFault where
  | unknownLevel (name : String)
  | emptyDirectory
  | relativeDirectory (directory : String)
  | unmadeDirectory (directory : String) (fault : DiskFault)
  | otherDirectory (active requested : String)
  | otherLevel (active requested : Level)
  deriving DecidableEq

namespace LogFault

/-- What the running log file is known by, and what was asked for instead. -/
def conflict? : LogFault → Option (String × String)
  | .otherDirectory active requested => some (s!"dir `{active}`", s!"dir `{requested}`")
  | .otherLevel active requested =>
    some ("level `" ++ active.name ++ "`", "level `" ++ requested.name ++ "`")
  | _ => none

/-- The text of a refusal. -/
def message (f : LogFault) : String :=
  match f with
  | .unknownLevel name => s!"unknown log level `{name}`; expected trace|debug|info|warn|error"
  | .emptyDirectory => "log directory is empty"
  | .relativeDirectory directory => s!"log directory must be absolute: `{directory}`"
  | .unmadeDirectory directory fault =>
    s!"cannot create log directory `{directory}`: " ++ fault.message
  | .otherDirectory .. | .otherLevel .. =>
    let (active, requested) := f.conflict?.getD ("", "")
    s!"logging already active with {active}; refusing to switch to {requested}"

end LogFault

namespace LogFile

/-- The level that a text asks for, blanks around it and capital letters not counting. -/
def requestedLevel (text : String) : Except LogFault Level :=
  let name := String.ofList ((Text.trim text.toList).map Char.toLower)
  match Level.ofName? name with
  | some level => .ok level
  | none => .error (.unknownLevel name)

/-- The directory that a text asks for, blanks around it not counting. -/
def requestedDirectory (text : String) : Except LogFault String :=
  let directory := String.ofList (Text.trim text.toList)
  if directory = "" then .error .emptyDirectory
  else if Path.isAbsolute directory then .ok directory
  else .error (.relativeDirectory directory)

/-- The bytes that stand around the text of an event: when it happened, where, and the end of the
line. -/
def stampBytes : Nat := 103

/-- The log file with an event that matters enough. -/
def record (log : LogFile) (e : Event) : LogFile :=
  if log.file.isSome ∧ log.level.rank ≤ e.level.rank then
    { log with
      lines := log.lines ++ e.line.splitOn "\n"
      size := log.size + stampBytes + e.line.utf8ByteSize }
  else log

/-- The log file with events. -/
def recordAll (log : LogFile) (es : List Event) : LogFile := es.foldl record log

/-- What is told when a log file is started. -/
def started (level : Level) (directory : String) : Event :=
  ⟨.info, "logging_start", "core", "ok",
    [("level", level.name), ("version", release), ("log_dir", directory)]⟩

/-- The name of a log file in its directory. -/
def fileName : String := "booktree_rCURRENT.log"

/-- Starts a log file in a directory, which is made if need be. -/
def create (level : Level) (directory : String) : EStateM LogFault Disk LogFile := fun d =>
  match d.makeDirectories directory with
  | .ok () d =>
    let file := d.filePlace? (Path.join directory fileName)
    let d := match file with
      | some place => if (d.node? place).isSome then d else d.put place (.database {})
      | none => d
    .ok (record ⟨level, directory, file, [], 0⟩ (started level directory)) d
  | .error fault d => .error (.unmadeDirectory directory fault) d

/-- The bytes of text that are held back. -/
def heldBackBytes : Nat := 8192

/-- The disk after the process of a log has ended. If more was written than is held back, an empty
file has text now. -/
def leave (log : LogFile) (d : Disk) : Disk :=
  match log.file with
  | some place =>
    if heldBackBytes < log.size ∧ d.holds place {} then d.put place .text else d
  | none => d

/-- The running log file, when it is the one that is asked for. -/
def confirm (log : LogFile) (level : Level) (directory : String) : Except LogFault LogFile :=
  if Path.parts log.directory ≠ Path.parts directory then
    .error (.otherDirectory log.directory directory)
  else if log.level ≠ level then .error (.otherLevel log.level level)
  else .ok log

/-- The log file that is asked for by texts, when there is a running one or none. -/
def start (running : Option LogFile) (level directory : String) :
    EStateM LogFault Disk LogFile := do
  let level ← MonadExcept.ofExcept (requestedLevel level)
  let directory ← MonadExcept.ofExcept (requestedDirectory directory)
  match running with
  | none => create level directory
  | some log => MonadExcept.ofExcept (confirm log level directory)

/-- What a crash carries: a text, or something that is none. -/
inductive Payload where
  | text (s : String)
  | other
  deriving DecidableEq

/-- The characters of a crash's text that are told. -/
def maxCrashLength : Nat := 120

/-- A text on one line, cut after so many characters. -/
def onOneLine (s : String) (most : Nat) : String :=
  let flat := s.toList.map fun c => if c = '\n' ∨ c = '\r' then ' ' else c
  if flat.length ≤ most then String.ofList flat else String.ofList (flat.take most) ++ "..."

/-- What is told about a crash. Where it happened is not kept, and is written `#`. -/
def crashed (payload : Payload) : Event :=
  let text := match payload with
    | .text s => s
    | .other => "non-string panic payload"
  ⟨.error, "panic_captured", "core", "error",
    [("location", "#"), ("message", onOneLine text maxCrashLength)]⟩

end LogFile
end Outline
