import Outline.Database.Fault
import Outline.Text.Hexadecimal
import Outline.Text.Utf8

/-!
Addresses of databases.

A name is a path, unless it starts as a file URI does. Then it has a path, perhaps after an
authority that says nothing, and settings: names and values after a question mark, with an ampersand
between them. A percent sign with two hexadecimal digits stands for a byte. The byte zero ends the
part that it stands in.
-/
namespace Outline
set_option autoImplicit false

/-- What may be done with a database: to read it, to change it, to make it when it is missing, or to
have a new one in memory. -/
inductive Access where
  | read
  | change
  | make
  | memory
  deriving DecidableEq

namespace Access

/-- How much an access allows. -/
def rank : Access → Nat
  | memory => 0
  | read => 1
  | change => 2
  | make => 3

/-- The access of a name. -/
def ofName? : String → Option Access
  | "ro" => some read
  | "rw" => some change
  | "rwc" => some make
  | "memory" => some memory
  | _ => none

/-- Whether another access may take the place of one. It must not allow more, but in memory anything
is allowed. -/
def mayBecome (current asked : Access) : Bool :=
  current == memory || decide (asked.rank ≤ current.rank)

end Access

/-- Where a database is and how it is to be opened: with what access, as one that is fixed, so that
it is read without a look at the files beside it, without locks, and by what system of files, if one
is named. -/
structure Address where
  path : String
  access : Access := .make
  isFixed : Bool := false
  isUnlocked : Bool := false
  system : Option String := none
  deriving DecidableEq

namespace Address

/-- The path of some bytes. A byte that belongs to no character gets a private one. -/
def pathOf (bs : Bytes) : String :=
  String.ofList ((Text.pieces bs).flatMap
    (Sum.elim ([·]) fun broken => broken.map fun b => Char.ofNat (0x10FF00 + b.toNat)))

/-- The bytes that a part of an address stands for. -/
def decode : Bytes → Bytes
  | 0x25 :: a :: b :: rest =>
    match Hexadecimal.value? a, Hexadecimal.value? b with
    | some high, some low =>
      if high = 0 ∧ low = 0 then [] else UInt8.ofNat (16 * high + low) :: decode rest
    | _, _ => 0x25 :: decode (a :: b :: rest)
  | c :: rest => c :: decode rest
  | [] => []

/-- The part before the first of a byte, and the part after it. -/
def cutAt (mark : UInt8) (bs : Bytes) : Bytes × Bytes :=
  (bs.takeWhile (· != mark), (bs.dropWhile (· != mark)).drop 1)

/-- The parts between the marks. -/
def splitAt (mark : UInt8) : Bytes → List Bytes
  | [] => [[]]
  | b :: rest =>
    match splitAt mark rest with
    | [] => [[b]]
    | part :: parts => if b = mark then [] :: part :: parts else (b :: part) :: parts

/-- A setting of an address. -/
abbrev Setting := String × String

/-- The setting in a part of an address, unless it has no name. -/
def setting? (bs : Bytes) : Option Setting :=
  let (name, value) := cutAt 0x3D bs
  let name := Text.marked (decode name)
  if name = "" then none else some (name, Text.marked (decode value))

/-- The system of files that keeps all of them in memory. -/
def memorySystem : String := "memdb"

/-- The systems of files that share no memory, so that they have no use for a log. -/
def loglessSystems : List String := ["unix-none", "unix-dotfile"]

/-- The systems of files that there are. -/
def systems : List String := ["unix", "unix-excl", memorySystem] ++ loglessSystems

/-- The address with settings taken one by one. -/
def settle (a : Address) : List Setting → Except AddressFault Address
  | [] =>
    match a.system with
    | none => .ok a
    | some name => if systems.contains name then .ok a else .error (.noSuchSystem name)
  | ("vfs", name) :: rest => settle { a with system := some name } rest
  | ("cache", mode) :: rest =>
    if mode = "shared" ∨ mode = "private" then settle a rest else .error (.noSuchSharing mode)
  | ("mode", mode) :: rest =>
    match Access.ofName? mode with
    | none => .error (.noSuchAccess mode)
    | some access =>
      if a.access.mayBecome access then settle { a with access := access } rest
      else .error (.accessNotAllowed mode)
  | _ :: rest => settle a rest

/-- The value of digits, if it fits into 32 bits, or else zero. -/
def shortValue (base : Nat) (digits : Bytes) : Nat :=
  let n := (digits.filterMap Hexadecimal.value?).foldl (fun n d => n * base + d) 0
  if n < 0x80000000 then n else 0

/-- Whether a byte is a decimal digit. -/
def isDigit (b : UInt8) : Bool := decide (0x30 ≤ b) && decide (b ≤ 0x39)

/-- The number that a text starts with, in decimal or in hexadecimal digits. -/
def leadingNumber (bs : Bytes) : Nat :=
  let decimal := shortValue 10 (bs.takeWhile isDigit)
  match bs with
  | 0x30 :: x :: rest =>
    let digits := rest.takeWhile fun b => (Hexadecimal.value? b).isSome
    if (x = 0x78 ∨ x = 0x58) ∧ !digits.isEmpty then shortValue 16 digits else decimal
  | _ => decimal

/-- Whether a text says yes, by a word or by a number whose last byte is not zero. -/
def saysYes (s : String) : Bool :=
  let bytes := Text.utf8 s
  if bytes.head?.any isDigit then leadingNumber bytes % 256 != 0
  else ["on", "yes", "true"].contains (s.map Char.toLower)

/-- Whether settings say yes to something. The first that is about it counts. -/
def agree (settings : List Setting) (name : String) : Bool :=
  ((settings.lookup name).map saysYes).getD false

/-- The bytes after the authority, which may be there after two slashes. -/
def withoutAuthority : Bytes → Except AddressFault Bytes
  | 0x2F :: 0x2F :: rest =>
    let authority := Text.marked (rest.takeWhile (· != 0x2F))
    if authority = "" ∨ authority = "localhost" then .ok (rest.dropWhile (· != 0x2F))
    else .error (.authority authority)
  | bs => .ok bs

/-- What a file URI starts with. -/
def scheme : Bytes := Text.utf8 "file:"

/-- The address that a name is. -/
def ofName (name : String) : Except AddressFault Address := do
  let bytes := Text.utf8 name
  if scheme.isPrefixOf bytes then
    let rest ← withoutAuthority (bytes.drop scheme.length)
    let (path, query) := cutAt 0x3F (rest.takeWhile (· != 0x23))
    let settings := (splitAt 0x26 query).filterMap setting?
    settle
      { path := pathOf (decode path), isFixed := agree settings "immutable",
        isUnlocked := agree settings "nolock" }
      settings
  else return { path := name }

/-- Whether an address asks for a new database that has no file at all. -/
def isNew (a : Address) : Bool := a.path == "" || a.path == ":memory:" || a.access == .memory

/-- Whether the database of an address is in memory. -/
def inMemory (a : Address) : Bool := a.isNew || a.system == some memorySystem

/-- Whether the database of an address can have a log beside it. -/
def mayHaveLog (a : Address) : Bool := !a.isUnlocked && !a.system.any loglessSystems.contains

/-- Whether the database of an address is only read. -/
def isReadOnly (a : Address) : Bool := a.access == .read || (a.isFixed && !a.isNew)

end Address
end Outline
