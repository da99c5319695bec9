import Outline.Json.Container
import Outline.Settings.Locale

/-!
The settings of an outline: the locale its titles are shown in, and the width of a contents line.
-/
namespace Outline
set_option autoImplicit false

/-- What a caller may choose. The width counts the ellipsis of a cut title. -/
structure Settings where
  locale : String := "en"
  titleWidth : Nat := 30
  deriving DecidableEq

/-- Why settings were refused. -/
inductive SettingsFault where
  | unreadable (fault : Json.Fault)
  | invalidLocale (locale : String)
  | widthTooSmall (width : Nat)
  deriving DecidableEq

/-- The text of a refusal. Of an unreadable text only the kind of fault is told. -/
def SettingsFault.message : SettingsFault → String
  | .unreadable _ => "invalid outline settings"
  | .invalidLocale locale => s!"invalid locale `{locale}`"
  | .widthTooSmall width => s!"toc_title_max_chars must be at least 2, got {width}"

namespace Settings

/-- Settings whose locale is a tag and whose width leaves room for a character and the ellipsis. -/
def check (s : Settings) : Except SettingsFault Unit :=
  if !Locale.isTag s.locale then .error (.invalidLocale s.locale)
  else if s.titleWidth < 2 then .error (.widthTooSmall s.titleWidth)
  else .ok ()

end Settings
end Outline
