import Outline.Settings.Basic

/-!
Settings from JSON text.

They are an object with some of the two fields, in any order, or a list of their values in the order
locale, width, from which values may be missing at the end. What is missing keeps its default.
-/
namespace Outline.Settings
set_option autoImplicit false

open Json

/-- The fields met so far. -/
structure Fields where
  locale : Option String := none
  titleWidth : Option Nat := none

/-- The settings that some fields give. -/
def Fields.toSettings (f : Fields) : Settings :=
  let standard : Settings := {}
  ⟨f.locale.getD standard.locale, f.titleWidth.getD standard.titleWidth⟩

/-- A width: a whole number of 64 bits without a sign. -/
def width : Reader Nat := Int.toNat <$> integer 0 Word.maxUnsigned64

/-- A member of the object. An unknown name is refused before its value is looked at. -/
def member (name : String) (f : Fields) : Reader Fields :=
  if name = "locale" then do return { f with locale := ← once f.locale text }
  else if name = "toc_title_max_chars" then do
    return { f with titleWidth := ← once f.titleWidth width }
  else throw .unsuitable

/-- The elements of the list form, and its closing bracket. -/
def listBody : Reader Fields := do
  if !(← hasElement true) then
    closeList
    return {}
  let locale ← text
  if !(← hasElement false) then
    closeList
    return { locale := some locale }
  let titleWidth ← width
  closeList
  return { locale := some locale, titleWidth := some titleWidth }

/-- Settings in either form. -/
def value : Reader Settings := do
  let b ← peekValue
  let fields ← (if b = 0x5B then drop *> listBody
    else if b = 0x7B then drop *> objectBody member {}
    else refuse)
  return fields.toSettings

/-- The settings written in a text, when they can be read and pass their checks. -/
def ofJson (raw : String) : Except SettingsFault Settings :=
  match readAll value (Text.utf8 raw) with
  | .error fault => .error (.unreadable fault)
  | .ok s =>
    match s.check with
    | .error fault => .error fault
    | .ok () => .ok s

end Outline.Settings
