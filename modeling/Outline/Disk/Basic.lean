import Outline.Database.Basic

/-!
A disk: a tree of directories and files, and the making of directories.

Following a path asks every name on the way to lead to a directory. Making a directory with all that
is missing above it may fail half way; what was made before stays.
-/
namespace Outline
set_option autoImplicit false

/-- The names on the way from the top of a disk to a place. -/
abbrev Place := List String

namespace Path

/-- The names between the slashes of a path. -/
def names (path : String) : List String := (path.splitOn "/").filter (· ≠ "")

/-- The names of a path that lead somewhere. Two paths with the same ones are taken for one. -/
def parts (path : String) : List String := (names path).filter (· ≠ ".")

/-- Whether a path starts at the top. -/
def isAbsolute (path : String) : Bool := path.toList.head? == some '/'

/-- The path of a name in a directory. -/
def join (directory name : String) : String :=
  if directory.toList.getLast? == some '/' then directory ++ name else directory ++ "/" ++ name

/-- The paths above a path, the nearest first, given its names from the last to the first. -/
def above : List String → List (List String)
  | [] => []
  | name :: rest =>
    if name = "." then above rest else (rest.dropWhile (· == ".")).reverse :: above rest

/-- A path and all paths above it. -/
def withAbove (names : List String) : List (List String) := names :: above names.reverse

end Path

/-- What stands at a place. A sealed directory takes nothing new. A file holds a database, which is
empty if nothing was written to it yet, or other text. A frozen file is empty and stays so. A sink
is empty too: it takes what is written, and refuses in the end to keep it. -/
inductive Node where
  | directory (isSealed : Bool) (entries : List (String × Node))
  | database (db : Database)
  | text
  | frozen
  | sink (fault : EngineFault)

namespace Node

/-- Whether a node is a directory. -/
def isDirectory : Node → Bool
  | directory .. => true
  | _ => false

/-- Whether a node is a file without content. -/
def isEmptyFile : Node → Bool
  | database db => db == {}
  | frozen | sink _ => true
  | directory .. | text => false

/-- The node of a name, if there is one. -/
def child? (name : String) : Node → Option Node
  | directory _ entries => entries.lookup name
  | _ => none

/-- The node that is at a place under another. -/
def at? (n : Node) : Place → Option Node
  | [] => some n
  | name :: rest => (n.child? name).bind (·.at? rest)

/-- A node with another one in a directory at or under it. Nothing is put where there is no
directory. -/
def put (new : Node) : Place → Node → Node
  | [], _ => new
  | name :: rest, n =>
    match n with
    | directory isSealed entries =>
      match entries.lookup name, rest with
      | none, _ :: _ => n
      | below, _ =>
        directory isSealed
          ((name, put new rest (below.getD new)) :: entries.filter (·.1 != name))
    | n => n

/-- A node without what is at a place under it. -/
def remove : Place → Node → Node
  | [], n => n
  | name :: rest, n =>
    match n with
    | directory isSealed entries =>
      if rest.isEmpty then directory isSealed (entries.filter (·.1 != name))
      else
        directory isSealed
          (entries.map fun e => if e.1 == name then (e.1, remove rest e.2) else e)
    | n => n

end Node

/-- Why a path did not lead where it should. -/
inductive DiskFault where
  | missing
  | taken
  | notDirectory
  | nameTooLong
  | nulCharacter
  deriving DecidableEq

/-- The text of a fault, with its number if it has one. -/
def DiskFault.message : DiskFault → String
  | .missing => "No such file or directory (os error 2)"
  | .taken => "File exists (os error 17)"
  | .notDirectory => "Not a directory (os error 20)"
  | .nameTooLong => "File name too long (os error 36)"
  | .nulCharacter => "file name contained an unexpected NUL byte"

/-- The way from the top to a node: the names that were passed, each with what it stands for, the
last one first. -/
abbrev Trail := List (String × Node)

/-- The place where a way ends. -/
def Trail.place (t : Trail) : Place := (t.map (·.1)).reverse

/-- A disk. Paths that do not start at the top start at home. -/
structure Disk where
  top : Node
  home : Place

namespace Disk

/-- The bytes that a name may have. -/
def maxNameBytes : Nat := 255

/-- The bytes that a path may not have. -/
def maxPathBytes : Nat := 4096

/-- What stands at a place. -/
def node? (d : Disk) (place : Place) : Option Node := d.top.at? place

/-- The disk with a node at a place. -/
def put (d : Disk) (place : Place) (node : Node) : Disk :=
  { d with top := Node.put node place d.top }

/-- The disk without what stands at a place. -/
def remove (d : Disk) (place : Place) : Disk := { d with top := Node.remove place d.top }

/-- Whether a database is kept at a place as it is. -/
def holds (d : Disk) (place : Place) (db : Database) : Bool :=
  match d.node? place with
  | some (.database kept) => kept == db
  | _ => false

/-- What stands at the end of a way. -/
def nodeOf (d : Disk) (t : Trail) : Node := (t.head?.map (·.2)).getD d.top

/-- The way that names lead, from the end of another. -/
def followFrom (d : Disk) (t : Trail) : List String → Except DiskFault Trail
  | [] => .ok t
  | name :: rest =>
    if !(d.nodeOf t).isDirectory then .error .notDirectory
    else if name = "." then d.followFrom t rest
    else if name = ".." then d.followFrom t.tail rest
    else if maxNameBytes < name.utf8ByteSize then .error .nameTooLong
    else match (d.nodeOf t).child? name with
      | none => .error .missing
      | some node => d.followFrom ((name, node) :: t) rest

/-- The way that names lead from the top. -/
def follow (d : Disk) (names : List String) : Except DiskFault Trail := d.followFrom [] names

/-- Whether names lead to a directory. -/
def leadsToDirectory (d : Disk) (names : List String) : Bool :=
  match d.follow names with
  | .ok t => (d.nodeOf t).isDirectory
  | .error _ => false

/-- The place for a new directory that names lead to. -/
def newPlace (d : Disk) (names : List String) : Except DiskFault Place :=
  match names.getLast? with
  | none => .error .taken
  | some name => do
    let parent ← d.follow names.dropLast
    match d.nodeOf parent with
    | .directory isSealed entries =>
      if name = "." ∨ name = ".." then throw .taken
      else if maxNameBytes < name.utf8ByteSize then throw .nameTooLong
      else if (entries.lookup name).isSome then throw .taken
      else if isSealed then throw .missing
      else return Trail.place parent ++ [name]
    | _ => throw .notDirectory

/-- Makes the directory that names lead to. -/
def makeDirectory (names : List String) : EStateM DiskFault Disk Unit := fun d =>
  match d.newPlace names with
  | .ok place => .ok () (d.put place (.directory false []))
  | .error fault => .error fault d

/-- Makes a directory, which may be there already. -/
def makeOrKeep (names : List String) : EStateM DiskFault Disk Unit := fun d =>
  match makeDirectory names d with
  | .ok () d => .ok () d
  | .error fault d => if d.leadsToDirectory names then .ok () d else .error fault d

/-- Makes the first of some directories, each of which lies in the next, and those of the others
that are missing. -/
def makeAll : List (List String) → EStateM DiskFault Disk Unit
  | [] => return ()
  | names :: above => fun d =>
    match makeOrKeep names d with
    | .error .missing d => (makeAll above *> makeOrKeep names) d
    | outcome => outcome

/-- Makes the directory that an absolute path names, and what is missing above it. -/
def makeDirectories (path : String) : EStateM DiskFault Disk Unit :=
  if path.toList.contains '\x00' then throw .nulCharacter
  else if maxPathBytes ≤ path.utf8ByteSize then throw .nameTooLong
  else makeAll (Path.withAbove (Path.names path))

/-- The place of the file that an absolute path names, if it is there or can be made. -/
def filePlace? (d : Disk) (path : String) : Option Place :=
  let names := Path.names path
  match names.getLast?, d.follow names.dropLast with
  | some name, .ok parent =>
    match d.nodeOf parent with
    | .directory isSealed entries =>
      let opens := match entries.lookup name with
        | some node => !node.isDirectory
        | none => !isSealed
      if path.utf8ByteSize < maxPathBytes && opens then some (Trail.place parent ++ [name])
      else none
    | _ => none
  | _, _ => none

end Disk
end Outline
