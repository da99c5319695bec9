import Outline.Text.Lowercase

/-!
Texts in small letters.

Every character gives way to its small form. Only a capital sigma has two, and which of them it takes
is told by the nearest characters on both sides that are not passed over.
-/
namespace Outline.Text
set_option autoImplicit false

variable {before after cs small other : List Char}

/-- Whether a character is passed over in the search for a letter. -/
def IsMark (c : Char) : Prop := inRanges caseIgnorableRanges c.toNat = true

/-- Whether a character is a letter with a case that ends such a search. -/
def IsCased (c : Char) : Prop := ¬ IsMark c ∧ inRanges casedRanges c.toNat = true

/-- Whether a text starts with a letter that has a case, marks before it aside. -/
def LeadsToLetter (cs : List Char) : Prop :=
  ∃ marks letter rest, cs = marks ++ letter :: rest ∧ (∀ c ∈ marks, IsMark c) ∧ IsCased letter

/-- Whether a sigma between two texts ends a word. -/
def EndsWord (before after : List Char) : Prop :=
  LeadsToLetter before.reverse ∧ ¬ LeadsToLetter after

/-- What a text that stands after another becomes in small letters. -/
inductive Lowered : List Char → List Char → List Char → Prop where
  | nil {before : List Char} : Lowered before [] []
  | final {before after small : List Char} (ends : EndsWord before after)
      (more : Lowered (before ++ ['Σ']) after small) : Lowered before ('Σ' :: after) ('ς' :: small)
  | inner {before after small : List Char} (ends : ¬ EndsWord before after)
      (more : Lowered (before ++ ['Σ']) after small) : Lowered before ('Σ' :: after) ('σ' :: small)
  | other {before after small : List Char} {c : Char} (other : c ≠ 'Σ')
      (more : Lowered (before ++ [c]) after small) :
      Lowered before (c :: after) (smallForm c ++ small)

theorem startsWithCased_iff : startsWithCased cs = true ↔ LeadsToLetter cs := by
  induction cs with
  | nil => simp [startsWithCased, LeadsToLetter]
  | cons c cs ih =>
    rw [startsWithCased]
    split
    · next hmark =>
      rw [ih]
      constructor
      · rintro ⟨marks, letter, rest, rfl, hmarks, hletter⟩
        exact ⟨c :: marks, letter, rest, rfl, List.forall_mem_cons.2 ⟨hmark, hmarks⟩, hletter⟩
      · rintro ⟨marks, letter, rest, heq, hmarks, hletter⟩
        cases marks with
        | nil =>
          cases heq
          exact absurd hmark hletter.1
        | cons x marks =>
          cases heq
          exact ⟨marks, letter, rest, rfl, (List.forall_mem_cons.1 hmarks).2, hletter⟩
    · next hmark =>
      constructor
      · intro hcased
        exact ⟨[], c, cs, rfl, by simp, hmark, hcased⟩
      · rintro ⟨marks, letter, rest, heq, hmarks, hletter⟩
        cases marks with
        | nil =>
          cases heq
          exact hletter.2
        | cons x marks =>
          cases heq
          exact absurd (List.forall_mem_cons.1 hmarks).1 hmark

theorem endsWord_iff :
    (startsWithCased before.reverse && !startsWithCased after) = true ↔ EndsWord before after := by
  rw [Bool.and_eq_true, startsWithCased_iff, Bool.not_eq_true', ← Bool.not_eq_true,
    startsWithCased_iff, EndsWord]

theorem lowered_lowercaseAfter (cs : List Char) :
    ∀ before, Lowered before cs (lowercaseAfter before.reverse cs) := by
  induction cs with
  | nil => intro before; exact .nil
  | cons c cs ih =>
    intro before
    have hmore := ih (before ++ [c])
    rw [List.reverse_append, List.reverse_singleton, List.singleton_append] at hmore
    rw [lowercaseAfter]
    by_cases hc : c = 'Σ'
    · subst hc
      rw [if_pos rfl]
      split
      · next hends => exact .final (endsWord_iff.1 hends) hmore
      · next hends => exact .inner (fun h => hends (endsWord_iff.2 h)) hmore
    · rw [if_neg hc]
      exact .other hc hmore

/-- A text in small letters is what it becomes by the rule for each of its characters. -/
theorem lowered_lowercase (cs : List Char) : Lowered [] cs (lowercase cs) :=
  lowered_lowercaseAfter cs []

/-- A text becomes one text only. -/
theorem Lowered.unique (h : Lowered before cs small) (h' : Lowered before cs other) :
    small = other := by
  induction h generalizing other with
  | nil =>
    cases h'
    rfl
  | final ends more ih =>
    cases h' with
    | final _ more' => rw [ih more']
    | inner ends' _ => exact absurd ends ends'
    | other hne _ => exact absurd rfl hne
  | inner ends more ih =>
    cases h' with
    | final ends' _ => exact absurd ends' ends
    | inner _ more' => rw [ih more']
    | other hne _ => exact absurd rfl hne
  | other hne more ih =>
    cases h' with
    | final _ _ => exact absurd rfl hne
    | inner _ _ => exact absurd rfl hne
    | other _ more' => rw [ih more']

end Outline.Text
