import Mathlib.Computability.Language
import Outline.Proofs.Text.Words
import Outline.Settings.Basic

/-!
Which texts are locale tags.

The scanner of tags counts characters and never cuts the text. It takes exactly the texts whose
pieces between the hyphens are a language and then parts. These are the words of a regular
expression, a language and any number of parts with a hyphen in front of each, which shows what
characters a tag can have.
-/
namespace Outline
set_option autoImplicit false

open Computability

/-- The characters that end a line: line feed, vertical tab, form feed, carriage return, next line,
line separator and paragraph separator. -/
def Text.IsLineBreak (c : Char) : Prop :=
  c.toNat ∈ [0x0A, 0x0B, 0x0C, 0x0D, 0x85, 0x2028, 0x2029]

namespace Locale

/-- Two to `most` characters of a class. -/
def IsRun (p : Char → Bool) (most : Nat) (part : List Char) : Prop :=
  2 ≤ part.length ∧ part.length ≤ most ∧ ∀ c ∈ part, p c = true

/-- The first part of a tag: two or three of the letters `a` to `z`. -/
def IsLanguage : List Char → Prop := IsRun Char.isLower 3

/-- A later part of a tag: two to eight letters or digits, all of them ASCII. -/
def IsPart : List Char → Prop := IsRun Char.isAlphanum 8

instance (p : Char → Bool) (most : Nat) (part : List Char) : Decidable (IsRun p most part) :=
  decidable_of_iff (2 ≤ part.length ∧ part.length ≤ most ∧ part.all p = true)
    (by rw [IsRun, List.all_eq_true])

instance : DecidablePred IsLanguage := inferInstanceAs (DecidablePred (IsRun _ _))

instance : DecidablePred IsPart := inferInstanceAs (DecidablePred (IsRun _ _))

variable {p : Char → Bool} {most n : Nat} {c : Char} {cs first : List Char}
  {parts : List (List Char)}

section Pieces

/-- The pieces that may be left of a tag when `n` characters of its present part, which is of class
`p` and at most `most` long, have been read. -/
def Completes (p : Char → Bool) (most n : Nat) : List (List Char) → Prop
  | [] => False
  | first :: parts =>
    (2 ≤ n + first.length ∧ n + first.length ≤ most ∧ ∀ c ∈ first, p c = true) ∧
      ∀ part ∈ parts, IsPart part

theorem completes_zero : Completes p most 0 (first :: parts) ↔
    IsRun p most first ∧ ∀ part ∈ parts, IsPart part := by
  rw [Completes, Nat.zero_add, IsRun]

theorem completes_nil : Completes p most n (([] : List Char).splitOn '-') ↔ 2 ≤ n ∧ n ≤ most := by
  rw [List.splitOn_nil, Completes]
  simp

/-- A hyphen ends the present part, and a new one begins. -/
theorem completes_hyphen : Completes p most n (('-' :: cs).splitOn '-') ↔
    (2 ≤ n ∧ n ≤ most) ∧ Completes Char.isAlphanum 8 0 (cs.splitOn '-') := by
  rw [List.splitOn_cons_eq_if_modifyHead, if_pos (beq_self_eq_true _)]
  obtain ⟨first, parts, hpieces⟩ := List.exists_cons_of_ne_nil (List.splitOn_ne_nil '-' cs)
  rw [hpieces, completes_zero, Completes, List.forall_mem_cons]
  simp [IsPart]

/-- Any other character has to be of the class of the present part, which goes on. -/
theorem completes_cons (hc : c ≠ '-') : Completes p most n ((c :: cs).splitOn '-') ↔
    p c = true ∧ Completes p most (n + 1) (cs.splitOn '-') := by
  rw [List.splitOn_cons_eq_if_modifyHead, if_neg (by simpa using hc)]
  obtain ⟨first, parts, hpieces⟩ := List.exists_cons_of_ne_nil (List.splitOn_ne_nil '-' cs)
  have hlength : n + (c :: first).length = n + 1 + first.length := by
    rw [List.length_cons]
    omega
  rw [hpieces, List.modifyHead_cons, Completes, Completes, hlength, List.forall_mem_cons]
  tauto

theorem partFrom_iff (cs : List Char) : ∀ n, partFrom n cs = true ↔
    Completes Char.isAlphanum 8 n (cs.splitOn '-') := by
  -- For every count, since it goes up with a character and starts again after a hyphen.
  induction cs with
  | nil =>
    intro n
    rw [partFrom, completes_nil, Bool.and_eq_true, decide_eq_true_eq, decide_eq_true_eq]
  | cons c cs ih =>
    intro n
    rw [partFrom]
    split
    · next hc =>
      rw [hc, completes_hyphen, Bool.and_eq_true, Bool.and_eq_true, ih, decide_eq_true_eq,
        decide_eq_true_eq]
    · next hc => rw [completes_cons hc, Bool.and_eq_true, ih]

theorem languageFrom_iff (cs : List Char) : ∀ n, languageFrom n cs = true ↔
    Completes Char.isLower 3 n (cs.splitOn '-') := by
  induction cs with
  | nil =>
    intro n
    rw [languageFrom, completes_nil, Bool.and_eq_true, decide_eq_true_eq, decide_eq_true_eq]
  | cons c cs ih =>
    intro n
    rw [languageFrom]
    split
    · next hc =>
      rw [hc, completes_hyphen, Bool.and_eq_true, Bool.and_eq_true, partFrom_iff,
        decide_eq_true_eq, decide_eq_true_eq]
    · next hc => rw [completes_cons hc, Bool.and_eq_true, ih]

/-- A tag is a text whose pieces between the hyphens are a language and then parts. -/
theorem isTag_iff_pieces (s : String) : isTag s = true ↔
    ∃ language parts, s.toList.splitOn '-' = language :: parts ∧
      IsLanguage language ∧ ∀ part ∈ parts, IsPart part := by
  rw [isTag, languageFrom_iff]
  obtain ⟨first, rest, hpieces⟩ := List.exists_cons_of_ne_nil (List.splitOn_ne_nil '-' s.toList)
  rw [hpieces, completes_zero]
  constructor
  · exact fun h => ⟨first, rest, rfl, h⟩
  · rintro ⟨language, parts, heq, h⟩
    cases heq
    exact h

end Pieces

section Regular

/-- The runs of a class as a language. -/
def run (p : Char → Bool) (most : Nat) : Language Char := {part | IsRun p most part}

/-- The tags as a language: `[a-z]{2,3}(-[A-Za-z0-9]{2,8})*` and nothing around it. -/
def tags : Language Char := run Char.isLower 3 * ({['-']} * run Char.isAlphanum 8)∗

theorem hyphen_notMem (hp : p '-' = false) (h : IsRun p most first) : '-' ∉ first := by
  intro hmem
  rw [h.2.2 '-' hmem] at hp
  cases hp

/-- A repetition of parts, each with its hyphen. -/
theorem mem_kstar_iff : cs ∈ (({['-']} : Language Char) * run Char.isAlphanum 8)∗ ↔
    ∃ parts : List (List Char), cs = parts.flatMap ('-' :: ·) ∧
      ∀ part ∈ parts, IsPart part := by
  rw [Language.mem_kstar]
  constructor
  · rintro ⟨repetitions, rfl, hrepetitions⟩
    induction repetitions with
    | nil => exact ⟨[], rfl, nofun⟩
    | cons repetition repetitions ih =>
      rw [List.forall_mem_cons, Language.mem_mul] at hrepetitions
      obtain ⟨⟨hyphen, rfl, part, hpart, rfl⟩, hlater⟩ := hrepetitions
      obtain ⟨parts, heq, hparts⟩ := ih hlater
      refine ⟨part :: parts, ?_, List.forall_mem_cons.2 ⟨hpart, hparts⟩⟩
      rw [List.flatten_cons, heq, List.flatMap_cons]
      rfl
  · rintro ⟨parts, rfl, hparts⟩
    refine ⟨parts.map ('-' :: ·), rfl, List.forall_mem_map.2 fun part hpart => ?_⟩
    exact Language.mem_mul.2 ⟨['-'], rfl, part, hparts part hpart, rfl⟩

/-- The scanner recognises the regular language: a word of it falls into its pieces at the hyphens,
since no piece has a hyphen of its own. -/
theorem isTag_iff_mem_tags (s : String) : isTag s = true ↔ s.toList ∈ tags := by
  rw [isTag_iff_pieces, tags, Language.mem_mul]
  constructor
  · rintro ⟨language, parts, hpieces, hlanguage, hparts⟩
    refine ⟨language, hlanguage, _, mem_kstar_iff.2 ⟨parts, rfl, hparts⟩, ?_⟩
    rw [← Text.intercalate_cons, ← hpieces, List.intercalate_splitOn]
  · rintro ⟨language, hlanguage, later, hlater, heq⟩
    obtain ⟨parts, rfl, hparts⟩ := mem_kstar_iff.1 hlater
    refine ⟨language, parts, ?_, hlanguage, hparts⟩
    rw [← heq, ← Text.intercalate_cons]
    refine List.splitOn_intercalate _ (List.forall_mem_cons.2 ⟨?_, fun part hpart => ?_⟩)
      (List.cons_ne_nil _ _)
    · exact hyphen_notMem rfl hlanguage
    · exact hyphen_notMem rfl (hparts part hpart)

theorem isAlphanum_of_isLower (h : c.isLower = true) : c.isAlphanum = true := by
  change (c.isUpper || c.isLower || c.isDigit) = true
  rw [h, Bool.or_true, Bool.true_or]

/-- A tag has letters, digits and hyphens only. -/
theorem chars_of_isTag {s : String} (h : isTag s = true) :
    ∀ c ∈ s.toList, c.isAlphanum = true ∨ c = '-' := by
  rw [isTag_iff_mem_tags, tags, Language.mem_mul] at h
  obtain ⟨language, hlanguage, later, hlater, heq⟩ := h
  obtain ⟨parts, rfl, hparts⟩ := mem_kstar_iff.1 hlater
  intro c hc
  rw [← heq, List.mem_append, List.mem_flatMap] at hc
  rcases hc with hc | ⟨part, hpart, hc⟩
  · exact .inl (isAlphanum_of_isLower (hlanguage.2.2 c hc))
  · rcases List.mem_cons.1 hc with rfl | hc
    · exact .inr rfl
    · exact .inl ((hparts part hpart).2.2 c hc)

theorem not_isLineBreak_of_char (h : c.isAlphanum = true ∨ c = '-') : ¬ Text.IsLineBreak c := by
  have hbreaks : ∀ k ∈ [0x0A, 0x0B, 0x0C, 0x0D, 0x85, 0x2028, 0x2029],
      ¬ ((Char.ofNat k).isAlphanum = true ∨ Char.ofNat k = '-') := by decide
  intro hbreak
  refine hbreaks c.toNat hbreak ?_
  rwa [Char.ofNat_toNat]

end Regular

end Locale

namespace Settings

theorem check_iff_isTag (s : Settings) :
    s.check = .ok () ↔ Locale.isTag s.locale = true ∧ 2 ≤ s.titleWidth := by
  rw [check]
  cases Locale.isTag s.locale with
  | false => simp
  | true =>
    by_cases hwidth : s.titleWidth < 2
    · simp [hwidth, Nat.not_le.2 hwidth]
    · simp [hwidth, Nat.not_lt.1 hwidth]

/-- Settings with room for a character and the ellipsis pass their checks exactly when the pieces of
their locale between its hyphens are a language and then parts. A locale that passes has no colon
and is on one line. -/
theorem check_iff_pieces (s : Settings) (hwidth : 2 ≤ s.titleWidth) :
    (s.check = .ok () ↔ ∃ language parts, s.locale.toList.splitOn '-' = language :: parts ∧
      Locale.IsLanguage language ∧ ∀ part ∈ parts, Locale.IsPart part) ∧
    (s.check = .ok () → ':' ∉ s.locale.toList ∧ ∀ c ∈ s.locale.toList, ¬ Text.IsLineBreak c) := by
  rw [check_iff_isTag, and_iff_left hwidth]
  refine ⟨Locale.isTag_iff_pieces s.locale, fun htag => ?_⟩
  have hchars := Locale.chars_of_isTag htag
  exact ⟨fun hcolon => absurd (hchars ':' hcolon) (by decide),
    fun c hc => Locale.not_isLineBreak_of_char (hchars c hc)⟩

/-- A language with two parts after it passes. A hyphen at the end makes an empty last part, and a
line break at the end is a character of the language. -/
theorem check_iff_pieces_atTheEnd :
    ((⟨"zh-Hant-TW", 2⟩ : Settings).check = .ok () ∧ ':' ∉ "zh-Hant-TW".toList ∧
      ∀ c ∈ "zh-Hant-TW".toList, ¬ Text.IsLineBreak c) ∧
    (⟨"zh-Hant-", 2⟩ : Settings).check ≠ .ok () ∧ (⟨"en\n", 2⟩ : Settings).check ≠ .ok () := by
  obtain ⟨hpass, hchars⟩ := check_iff_pieces ⟨"zh-Hant-TW", 2⟩ (by decide)
  have hzh := hpass.2 ⟨['z', 'h'], [['H', 'a', 'n', 't'], ['T', 'W']], rfl, by decide, by decide⟩
  refine ⟨⟨hzh, hchars hzh⟩, fun hend => ?_, fun hend => ?_⟩
  · obtain ⟨language, parts, hpieces, -, hparts⟩ :=
      (check_iff_pieces ⟨"zh-Hant-", 2⟩ (by decide)).1.1 hend
    cases hpieces
    exact absurd (hparts [] (by decide)) (by decide)
  · obtain ⟨language, parts, hpieces, hlanguage, -⟩ :=
      (check_iff_pieces ⟨"en\n", 2⟩ (by decide)).1.1 hend
    cases hpieces
    exact absurd hlanguage (by decide)

end Settings

end Outline
