import Outline.Text.Letters

/-!
Small letters, by the full mapping: one character may become two, and a capital sigma at the end of
a word takes the final form.
-/
namespace Outline.Text
set_option autoImplicit false

/-- The small form of a code point that a list of ascending runs gives, or the code point itself. -/
def smallFormIn : List CapitalRun → Nat → Nat
  | [], c => c
  | run :: rest, c =>
    if c < run.first then c
    else if c ≤ run.last then
      if (c - run.first) % run.step = 0 then run.small + (c - run.first) else c
    else smallFormIn rest c

/-- The small form of one character, without regard to its neighbours. The capital I with a dot
keeps its dot as a mark of its own. -/
def smallForm (c : Char) : List Char :=
  if c = 'İ' then ['i', '\u0307'] else [Char.ofNat (smallFormIn smallForms c.toNat)]

/-- Whether the first character that is not passed over is a letter with a case. -/
def startsWithCased : List Char → Bool
  | [] => false
  | c :: cs =>
    if inRanges caseIgnorableRanges c.toNat then startsWithCased cs
    else inRanges casedRanges c.toNat

/-- Small letters for a text, given the characters before it, the nearest first. A capital sigma is
final when a letter stands before it and none after it, marks between them aside. -/
def lowercaseAfter : List Char → List Char → List Char
  | _, [] => []
  | before, c :: cs =>
    (if c = 'Σ' then
      (if startsWithCased before && !startsWithCased cs then ['ς'] else ['σ'])
    else smallForm c) ++ lowercaseAfter (c :: before) cs

/-- A text in small letters. -/
def lowercase (cs : List Char) : List Char := lowercaseAfter [] cs

end Outline.Text
