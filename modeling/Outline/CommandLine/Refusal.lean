import Outline.CommandLine.Arguments
import Outline.LogFile
import Outline.Manager.Fault
import Outline.Settings.Basic
import Outline.Text.Quoted

/-!
Why the command line stopped, and how that is shown: by the refusal's name and what it carries.
-/
namespace Outline.CommandLine
set_option autoImplicit false

/-- The refusals of the command line. -/
inductive Refusal where
  | arguments (fault : ArgumentFault)
  | log (fault : LogFault)
  | database (fault : DatabaseFault)
  | store (fault : StoreFault)
  | settings (fault : SettingsFault)
  | outline (fault : OutlineFault)
  deriving DecidableEq

/-- Fields by name, in braces. -/
def fieldsText (fields : List (String × String)) : String :=
  "\x7b " ++ ", ".intercalate (fields.map fun (name, value) => name ++ ": " ++ value) ++ " \x7d"

/-- A name and what it carries. -/
def tagged (name content : String) : String := name ++ "(" ++ content ++ ")"

/-- How a fault of the log is shown. -/
def logText (f : LogFault) : String :=
  match f with
  | .unknownLevel name => tagged "UnknownLevel" (Text.quoted name)
  | .emptyDirectory => "EmptyDirectory"
  | .relativeDirectory directory => tagged "RelativeDirectory" (Text.quoted directory)
  | .unmadeDirectory directory fault =>
    "CreateDirectory " ++
      fieldsText [("dir", Text.quotedPath directory), ("message", Text.quoted fault.message)]
  | .otherDirectory .. | .otherLevel .. =>
    let (active, requested) := f.conflict?.getD ("", "")
    "Conflict " ++
      fieldsText [("active", Text.quoted active), ("requested", Text.quoted requested)]

/-- The class of an engine's refusal and its number, if it has one. -/
def engineCode? : EngineFault → Option (String × Nat)
  | .cannotOpen _ | .cannotOpenBeside => some ("CannotOpen", 14)
  | .readOnly => some ("ReadOnly", 8)
  | .readOnlyJournal => some ("ReadOnly", 776)
  | .fileFailed .opening => some ("SystemIoFailure", 10)
  | .fileFailed .reading => some ("SystemIoFailure", 266)
  | .fileFailed .keeping => some ("SystemIoFailure", 1034)
  | .fileFailed .deleting => some ("SystemIoFailure", 2570)
  | .diskFull => some ("DiskFull", 13)
  | .notDatabase => some ("NotADatabase", 26)
  | .badAddress (.accessNotAllowed _) => some ("PermissionDenied", 3)
  | .badAddress _ => some ("Unknown", 1)
  | _ => none

/-- How a refusal of the engine is shown. -/
def engineText (fault : EngineFault) : String :=
  match engineCode? fault with
  | none => Text.quoted fault.message
  | some (name, number) =>
    tagged "SqliteFailure"
      ("Error " ++ fieldsText [("code", name), ("extended_code", toString number)] ++ ", " ++
        tagged "Some" (Text.quoted fault.message))

/-- How a fault of a database is shown. -/
def databaseText : DatabaseFault → String
  | .engine fault => tagged "Sqlite" (engineText fault)
  | .migrationFailed version name fault =>
    "MigrationFailed " ++
      fieldsText [("version", toString version), ("name", Text.quoted name),
        ("source", engineText fault)]
  | .versionTooNew version latest =>
    "UnsupportedSchemaVersion " ++
      fieldsText [("db_version", toString version), ("latest_supported", toString latest)]

/-- How a refusal is shown. -/
def Refusal.text : Refusal → String
  | .arguments fault => Text.quoted fault.message
  | .log fault => logText fault
  | .database fault => databaseText fault
  | .store fault => Text.quoted fault.message
  | .settings fault => Text.quoted fault.message
  | .outline fault => Text.quoted fault.message

end Outline.CommandLine
