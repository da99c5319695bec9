/-!
The arguments of the command line: a path of a database, and a directory for a log.
-/
namespace Outline.CommandLine
set_option autoImplicit false

/-- What is asked for on the command line. -/
structure Arguments where
  logDirectory : Option String := none
  database : Option String := none
  deriving DecidableEq

/-- Why arguments were refused. -/
inductive ArgumentFault where
  | directoryMissing
  | unknownFlag (flag : String)
  | unexpected (argument : String)
  deriving DecidableEq

/-- The text of a refusal. -/
def ArgumentFault.message : ArgumentFault → String
  | .directoryMissing => "--log-dir needs a directory"
  | .unknownFlag flag => s!"unknown flag `{flag}`"
  | .unexpected argument => s!"unexpected argument `{argument}`"

/-- Whether an argument is a flag. -/
def isFlag (argument : String) : Bool := ['-', '-'].isPrefixOf argument.toList

/-- Reads arguments one by one. Whatever follows the flag for the directory is taken for one, and
the last directory counts. -/
def Arguments.read (found : Arguments) : List String → Except ArgumentFault Arguments
  | [] => .ok found
  | "--log-dir" :: rest =>
    match rest with
    | [] => .error .directoryMissing
    | directory :: rest => Arguments.read { found with logDirectory := some directory } rest
  | argument :: rest =>
    if isFlag argument then .error (.unknownFlag argument)
    else if found.database.isSome then .error (.unexpected argument)
    else Arguments.read { found with database := some argument } rest

end Outline.CommandLine
