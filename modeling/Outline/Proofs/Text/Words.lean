import Mathlib.Data.List.Chain
import Mathlib.Data.List.TakeWhile
import Outline.Text.Blank

/-!
The words of a text, and what is left of a text when its gaps are made even.

The words are the longest runs of characters that are no blanks. `Spells` says so without cutting the
text anywhere: blanks, then a word that ends at a blank or with the text, and so on. A text spells
exactly one list of words. Trimming a text and writing one space for each run of blanks comes to
joining its words by single spaces.
-/
namespace Outline.Text
set_option autoImplicit false

variable {cs gap word rest a b : List Char} {ws : List (List Char)} {c : Char}

/-- The pieces of a text between its blanks, without the empty ones. -/
def words (cs : List Char) : List (List Char) := (cs.splitOnP isBlank).filter (!·.isEmpty)

/-- Which words a text spells. No word can be made longer: blanks or the ends of the text are on both
sides of it. -/
inductive Spells : List Char → List (List Char) → Prop where
  | blanks {gap : List Char} (blank : ∀ c ∈ gap, isBlank c = true) : Spells gap []
  | word {gap word rest : List Char} {ws : List (List Char)}
      (blank : ∀ c ∈ gap, isBlank c = true) (nonempty : word ≠ [])
      (solid : ∀ c ∈ word, isBlank c = false) (ends : ∀ c ∈ rest.head?, isBlank c = true)
      (more : Spells rest ws) : Spells (gap ++ (word ++ rest)) (word :: ws)

section Words

theorem words_nil : words [] = [] := rfl

theorem words_append_cons (h : isBlank c = true) : words (a ++ c :: b) = words a ++ words b := by
  rw [words, List.splitOnP_append_cons a b h, List.filter_append]
  rfl

theorem words_gap_append (h : ∀ c ∈ gap, isBlank c = true) : words (gap ++ cs) = words cs := by
  induction gap with
  | nil => rfl
  | cons c gap ih =>
    rw [List.forall_mem_cons] at h
    have hstep : words ([] ++ c :: (gap ++ cs)) = _ := words_append_cons h.1
    rw [List.nil_append, words_nil, List.nil_append] at hstep
    rw [List.cons_append, hstep, ih h.2]

theorem words_solid (nonempty : word ≠ []) (solid : ∀ c ∈ word, isBlank c = false) :
    words word = [word] := by
  rw [words, List.splitOnP_eq_singleton solid]
  simp [nonempty]

theorem words_word_append (nonempty : word ≠ []) (solid : ∀ c ∈ word, isBlank c = false)
    (ends : ∀ c ∈ rest.head?, isBlank c = true) : words (word ++ rest) = word :: words rest := by
  cases rest with
  | nil => rw [List.append_nil, words_solid nonempty solid, words_nil]
  | cons c rest =>
    have hc := ends c rfl
    have hgap : words ([c] ++ rest) = words rest := words_gap_append (by simpa using hc)
    rw [words_append_cons hc, words_solid nonempty solid, List.singleton_append, ← hgap,
      List.singleton_append]

theorem Spells.words_eq (h : Spells cs ws) : words cs = ws := by
  induction h with
  | @blanks gap blank =>
    have hall : words (gap ++ []) = words [] := words_gap_append blank
    rwa [List.append_nil] at hall
  | word blank nonempty solid ends more ih =>
    rw [words_gap_append blank, words_word_append nonempty solid ends, ih]

/-- A character in front of a text that spells words. A blank belongs to the gap before the first
word; any other starts a word, or goes in front of a word that the text starts with. -/
theorem Spells.exists_cons (h : Spells cs ws) (c : Char) : ∃ ws, Spells (c :: cs) ws := by
  cases hc : isBlank c with
  | true =>
    cases h with
    | blanks blank => exact ⟨[], .blanks (List.forall_mem_cons.2 ⟨hc, blank⟩)⟩
    | word blank nonempty solid ends more =>
      rw [← List.cons_append]
      exact ⟨_, .word (List.forall_mem_cons.2 ⟨hc, blank⟩) nonempty solid ends more⟩
  | false =>
    have hnone : ∀ x ∈ ([] : List Char), isBlank x = true := by simp
    have hone : ∀ x ∈ [c], isBlank x = false := by simpa using hc
    cases h with
    | blanks blank =>
      have hends : ∀ x ∈ cs.head?, isBlank x = true :=
        fun x hx => blank x (List.mem_of_mem_head? hx)
      exact ⟨_, .word hnone (List.cons_ne_nil c []) hone hends (.blanks blank)⟩
    | @word gap word rest ws blank nonempty solid ends more =>
      cases gap with
      | nil =>
        exact ⟨_, .word hnone (List.cons_ne_nil c word) (List.forall_mem_cons.2 ⟨hc, solid⟩) ends more⟩
      | cons x gap =>
        have hends : ∀ y ∈ (x :: gap ++ (word ++ rest)).head?, isBlank y = true := by
          intro y hy
          cases hy
          exact blank x List.mem_cons_self
        exact ⟨_, .word hnone (List.cons_ne_nil c []) hone hends
          (.word blank nonempty solid ends more)⟩

/-- A text spells something. -/
theorem exists_spells (cs : List Char) : ∃ ws, Spells cs ws := by
  induction cs with
  | nil => exact ⟨[], .blanks (by simp)⟩
  | cons c cs ih =>
    obtain ⟨ws, hws⟩ := ih
    exact hws.exists_cons c

theorem spells_words (cs : List Char) : Spells cs (words cs) := by
  obtain ⟨ws, hws⟩ := exists_spells cs
  rwa [hws.words_eq]

/-- The words of a text are those that it spells, and no others. -/
theorem spells_iff : Spells cs ws ↔ words cs = ws :=
  ⟨Spells.words_eq, fun h => h ▸ spells_words cs⟩

end Words

section Gaps

theorem dropBlankEnd_cons (c : Char) (cs : List Char) :
    dropBlankEnd (c :: cs) =
      if isBlank c && (dropBlankEnd cs).isEmpty then [] else c :: dropBlankEnd cs := by
  unfold dropBlankEnd
  rw [List.reverse_cons, List.dropWhile_append, List.isEmpty_reverse]
  cases hc : isBlank c <;> cases hcs : (cs.reverse.dropWhile isBlank).isEmpty <;>
    simp_all [List.isEmpty_iff]

theorem dropBlankEnd_blanks (h : ∀ c ∈ gap, isBlank c = true) : dropBlankEnd gap = [] := by
  rw [dropBlankEnd, List.dropWhile_eq_nil_iff.2 (by simpa using h), List.reverse_nil]

theorem dropBlankEnd_word_append (solid : ∀ c ∈ word, isBlank c = false) :
    dropBlankEnd (word ++ rest) = word ++ dropBlankEnd rest := by
  induction word with
  | nil => rfl
  | cons c word ih =>
    rw [List.forall_mem_cons] at solid
    rw [List.cons_append, dropBlankEnd_cons, solid.1, ih solid.2]
    rfl

/-- Blanks before something that stays are not at the end. -/
theorem dropBlankEnd_append_of_ne_nil (h : dropBlankEnd cs ≠ []) :
    dropBlankEnd (gap ++ cs) = gap ++ dropBlankEnd cs := by
  induction gap with
  | nil => rfl
  | cons c gap ih =>
    have hne : (gap ++ dropBlankEnd cs).isEmpty = false := by simp [h]
    rw [List.cons_append, dropBlankEnd_cons, ih, hne, Bool.and_false]
    rfl

theorem joinBlanks_word_append (solid : ∀ c ∈ word, isBlank c = false) :
    joinBlanks false (word ++ rest) = word ++ joinBlanks false rest := by
  induction word with
  | nil => rfl
  | cons c word ih =>
    rw [List.forall_mem_cons] at solid
    rw [List.cons_append, joinBlanks, solid.1, ih solid.2]
    rfl

/-- Inside a run of blanks, a word ends the run. -/
theorem joinBlanks_run_word_append (nonempty : word ≠ []) (solid : ∀ c ∈ word, isBlank c = false) :
    joinBlanks true (word ++ rest) = word ++ joinBlanks false rest := by
  cases word with
  | nil => exact absurd rfl nonempty
  | cons c word =>
    rw [List.forall_mem_cons] at solid
    rw [List.cons_append, joinBlanks, solid.1, joinBlanks_word_append solid.2]
    rfl

theorem joinBlanks_run_gap_append (h : ∀ c ∈ gap, isBlank c = true) :
    joinBlanks true (gap ++ cs) = joinBlanks true cs := by
  induction gap with
  | nil => rfl
  | cons c gap ih =>
    rw [List.forall_mem_cons] at h
    rw [List.cons_append, joinBlanks, h.1, ih h.2]
    rfl

/-- The first blank of a run is written as a space, the others are not written. -/
theorem joinBlanks_gap_append (hne : gap ≠ []) (h : ∀ c ∈ gap, isBlank c = true) :
    joinBlanks false (gap ++ cs) = ' ' :: joinBlanks true cs := by
  cases gap with
  | nil => exact absurd rfl hne
  | cons c gap =>
    rw [List.forall_mem_cons] at h
    rw [List.cons_append, joinBlanks, h.1, joinBlanks_run_gap_append h.2]
    rfl

/-- Joining texts by a character puts it in front of each but the first. -/
theorem intercalate_cons (c : Char) (word : List Char) (ws : List (List Char)) :
    [c].intercalate (word :: ws) = word ++ ws.flatMap (c :: ·) := by
  induction ws generalizing word with
  | nil => simp
  | cons next ws ih =>
    rw [List.intercalate_cons_cons, ih, List.flatMap_cons, List.append_assoc]
    rfl

/-- What follows a word comes to a space before each further word. -/
theorem Spells.joinBlanks_dropBlankEnd (h : Spells cs ws)
    (ends : ∀ c ∈ cs.head?, isBlank c = true) :
    joinBlanks false (dropBlankEnd cs) = ws.flatMap (' ' :: ·) := by
  induction h with
  | blanks blank =>
    rw [dropBlankEnd_blanks blank]
    rfl
  | @word gap word rest ws blank nonempty solid hrest more ih =>
    have hgap : gap ≠ [] := by
      rintro rfl
      obtain ⟨c, word, rfl⟩ := List.exists_cons_of_ne_nil nonempty
      have hblank := ends c rfl
      rw [solid c List.mem_cons_self] at hblank
      cases hblank
    have hstay : dropBlankEnd (word ++ rest) ≠ [] := by
      rw [dropBlankEnd_word_append solid]
      simp [nonempty]
    rw [dropBlankEnd_append_of_ne_nil hstay, dropBlankEnd_word_append solid,
      joinBlanks_gap_append hgap blank, joinBlanks_run_word_append nonempty solid, ih hrest]
    rfl

theorem dropWhile_gap_append (blank : ∀ c ∈ gap, isBlank c = true) (nonempty : word ≠ [])
    (solid : ∀ c ∈ word, isBlank c = false) :
    (gap ++ (word ++ rest)).dropWhile isBlank = word ++ rest := by
  obtain ⟨c, word, rfl⟩ := List.exists_cons_of_ne_nil nonempty
  rw [List.dropWhile_append_of_pos blank, List.cons_append,
    List.dropWhile_cons_of_neg (by simp [solid c List.mem_cons_self])]

theorem Spells.joinBlanks_trim (h : Spells cs ws) :
    joinBlanks false (trim cs) = [' '].intercalate ws := by
  cases h with
  | blanks blank => rw [trim, List.dropWhile_eq_nil_iff.2 blank, List.intercalate_nil]; rfl
  | word blank nonempty solid ends more =>
    rw [trim, dropWhile_gap_append blank nonempty solid, dropBlankEnd_word_append solid,
      joinBlanks_word_append solid, more.joinBlanks_dropBlankEnd ends, intercalate_cons]

end Gaps

section Even

/-- A text with no blanks at its ends and none but single ones inside. -/
structure EvenlySpaced (cs : List Char) : Prop where
  head : ∀ c ∈ cs.head?, isBlank c = false
  last : ∀ c ∈ cs.getLast?, isBlank c = false
  single : cs.IsChain fun c next => isBlank c = true → isBlank next = false

theorem evenlySpaced_of_solid (solid : ∀ c ∈ cs, isBlank c = false) : EvenlySpaced cs where
  head := fun c hc => solid c (List.mem_of_mem_head? hc)
  last := fun c hc => solid c (List.mem_of_mem_getLast? hc)
  single := by
    apply List.Pairwise.isChain
    exact List.pairwise_of_forall_mem_list fun _ _ next hnext _ => solid next hnext

theorem EvenlySpaced.append (ha : EvenlySpaced a) (hb : EvenlySpaced b) (hane : a ≠ [])
    (hbne : b ≠ []) : EvenlySpaced (a ++ ' ' :: b) where
  head := by
    rw [List.head?_append_of_ne_nil _ hane]
    exact ha.head
  last := by
    obtain ⟨c, b, rfl⟩ := List.exists_cons_of_ne_nil hbne
    rw [List.getLast?_append_of_ne_nil _ (List.cons_ne_nil _ _), List.getLast?_cons_cons]
    exact hb.last
  single := by
    rw [List.isChain_append, List.isChain_cons]
    refine ⟨ha.single, ⟨fun c hc _ => hb.head c hc, hb.single⟩, fun c hc _ _ hblank => ?_⟩
    rw [ha.last c hc] at hblank
    cases hblank

/-- Words joined by single spaces are evenly spaced. -/
theorem Spells.evenlySpaced (h : Spells cs ws) : EvenlySpaced ([' '].intercalate ws) := by
  induction h with
  | blanks blank => exact evenlySpaced_of_solid (by simp)
  | word blank nonempty solid ends more ih =>
    cases more with
    | blanks blank =>
      rw [List.intercalate_singleton]
      exact evenlySpaced_of_solid solid
    | @word gap next rest ws _ hnext _ _ _ =>
      have hne : [' '].intercalate (next :: ws) ≠ [] := by
        rw [intercalate_cons]
        simp [hnext]
      rw [List.intercalate_cons_cons, List.append_assoc, List.singleton_append]
      exact (evenlySpaced_of_solid solid).append ih nonempty hne

end Even

end Outline.Text
