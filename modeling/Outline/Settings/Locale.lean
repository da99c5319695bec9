/-!
Locale tags such as `en` or `pt-BR`.

A tag is read once from left to right, counting the characters of the part it is in: a language of
two or three small letters, then any number of parts of two to eight letters or digits, each after a
hyphen.
-/
namespace Outline.Locale
set_option autoImplicit false

/-- The rest of a tag from within a part after the language, of which `n` characters were read. -/
def partFrom : Nat → List Char → Bool
  | n, [] => 2 ≤ n && n ≤ 8
  | n, c :: cs =>
    if c = '-' then 2 ≤ n && n ≤ 8 && partFrom 0 cs else c.isAlphanum && partFrom (n + 1) cs

/-- The rest of a tag from within the language, of which `n` letters were read. -/
def languageFrom : Nat → List Char → Bool
  | n, [] => 2 ≤ n && n ≤ 3
  | n, c :: cs =>
    if c = '-' then 2 ≤ n && n ≤ 3 && partFrom 0 cs else c.isLower && languageFrom (n + 1) cs

/-- Whether a text is a locale tag. -/
def isTag (s : String) : Bool := languageFrom 0 s.toList

end Outline.Locale
