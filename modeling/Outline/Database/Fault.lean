import Outline.Link.Fault

/-!
What a database refuses to do, and with what words.
-/
namespace Outline
set_option autoImplicit false

/-- The conditions on the values of a row. -/
inductive RowCheck where
  | positiveId
  | childFlag
  | depthRange
  deriving DecidableEq

/-- A condition as it is written in the table's definition. -/
def RowCheck.condition : RowCheck → String
  | .positiveId => "nid > 0"
  | .childFlag => "has_children IN (0, 1)"
  | .depthRange => "depth BETWEEN 1 AND 9"

/-- What was being done with a file when reading or writing it failed. -/
inductive FileAction where
  | opening
  | reading
  | keeping
  | deleting
  deriving DecidableEq

/-- What is wrong with the address of a database. -/
inductive AddressFault where
  | authority (name : String)
  | noSuchAccess (mode : String)
  | noSuchSharing (mode : String)
  | noSuchSystem (name : String)
  | accessNotAllowed (mode : String)
  deriving DecidableEq

/-- The text that tells what is wrong with an address. -/
def AddressFault.message : AddressFault → String
  | .authority name => s!"invalid uri authority: {name}"
  | .noSuchAccess mode => s!"no such access mode: {mode}"
  | .noSuchSharing mode => s!"no such cache mode: {mode}"
  | .noSuchSystem name => s!"no such vfs: {name}"
  | .accessNotAllowed mode => s!"access mode not allowed: {mode}"

/-- Refusals of the database engine. -/
inductive EngineFault where
  | nestedTransaction
  | tooManyVariables
  | duplicateId
  | duplicateRow (table : String)
  | nullColumn (column : String)
  | checkFailed (check : RowCheck)
  | wrongKind (kind : String) (index : Nat) (column : String)
  | wrongIdKind
  | outOfRange (value : Int) (index : Nat)
  | noSuchColumn (column : String)
  | unknownColumn (table column : String)
  | noSuchTable (name : String)
  | nameTaken (name : String)
  | indexNamed (name : String)
  | viewIndexed
  | viewModified (name : String)
  | cannotOpen (path : String)
  | cannotOpenBeside
  | readOnly
  | readOnlyJournal
  | fileFailed (action : FileAction)
  | diskFull
  | notDatabase
  | badAddress (fault : AddressFault)
  | nulCharacter (position : Nat)
  deriving DecidableEq

/-- The text of a refusal. -/
def EngineFault.message : EngineFault → String
  | .nestedTransaction => "cannot start a transaction within a transaction"
  | .tooManyVariables => "too many SQL variables"
  | .duplicateId => "UNIQUE constraint failed: book.nid"
  | .duplicateRow table => s!"UNIQUE constraint failed: {table}.rowid"
  | .nullColumn column => s!"NOT NULL constraint failed: book.{column}"
  | .checkFailed check => "CHECK constraint failed: " ++ check.condition
  | .wrongKind kind index column =>
    s!"Invalid column type {kind} at index: {index}, name: {column}"
  | .wrongIdKind => "datatype mismatch"
  | .outOfRange value index => s!"Integer {value} out of range at index {index}"
  | .noSuchColumn column => s!"no such column: {column}"
  | .unknownColumn table column => s!"table {table} has no column named {column}"
  | .noSuchTable name => s!"no such table: {name}"
  | .nameTaken name => s!"there is already a table named {name}"
  | .indexNamed name => s!"there is already an index named {name}"
  | .viewIndexed => "views may not be indexed"
  | .viewModified name => s!"cannot modify {name} because it is a view"
  | .cannotOpen path => s!"unable to open database file: {path}"
  | .cannotOpenBeside => "unable to open database file"
  | .readOnly | .readOnlyJournal => "attempt to write a readonly database"
  | .fileFailed _ => "disk I/O error"
  | .diskFull => "database or disk is full"
  | .notDatabase => "file is not a database"
  | .badAddress fault => fault.message
  | .nulCharacter position => s!"nul byte found in provided data at position: {position}"

/-- What stands in the way of changing a database: a change is refused at once, or in the end, when
all changes are to be kept. -/
inductive Hindrance where
  | atChange (fault : EngineFault)
  | atEnd (fault : EngineFault)
  deriving DecidableEq

/-- Why a database could not be opened or brought up to date. -/
inductive DatabaseFault where
  | engine (fault : EngineFault)
  | migrationFailed (version : Nat) (name : String) (fault : EngineFault)
  | versionTooNew (version latest : Nat)
  deriving DecidableEq

namespace DatabaseFault

/-- The text of a database fault. -/
def message : DatabaseFault → String
  | .engine fault => "sqlite error: " ++ fault.message
  | .migrationFailed version name fault =>
    s!"outline migration {version} ({name}) failed: " ++ fault.message
  | .versionTooNew version latest =>
    s!"book outline schema version {version} is newer than supported {latest}"

/-- The text of the engine's refusal behind a database fault, if there is one. -/
def cause? : DatabaseFault → Option String
  | .engine fault => some fault.message
  | .migrationFailed _ _ fault => some fault.message
  | .versionTooNew _ _ => none

end DatabaseFault
end Outline
