import Outline.Proofs.Text.Lowercase
import Outline.Proofs.Text.Words
import Outline.Title.SortKey

/-!
Sort keys of titles.

The key of a title is made of its words alone: joined by single spaces, and then put into small
letters as one text, since the end of a word is seen from the characters around it.
-/
namespace Outline.Title
set_option autoImplicit false

open Outline.Text

theorem evenGaps_eq_words (title : String) :
    evenGaps title = [' '].intercalate (words title.toList) :=
  (spells_words title.toList).joinBlanks_trim

theorem lowered_sortKey (title : String) :
    Lowered [] ([' '].intercalate (words title.toList)) (sortKey title).toList := by
  rw [sortKey, String.toList_ofList, evenGaps_eq_words]
  exact lowered_lowercase _

/-- A title spells words, and its key is what these become in small letters when they are joined by
single spaces. So titles that spell the same words have one key, however they are padded and spaced.
Before the letters are made small, there are no blanks at the ends of the key and no two in a row. -/
theorem sortKey_eq_words (title : String) :
    Spells title.toList (words title.toList) ∧
      Lowered [] ([' '].intercalate (words title.toList)) (sortKey title).toList ∧
      (∀ other : String, Spells other.toList (words title.toList) →
        sortKey other = sortKey title) ∧
      EvenlySpaced (evenGaps title) := by
  have hspells := spells_words title.toList
  refine ⟨hspells, lowered_sortKey title, fun other hother => ?_, ?_⟩
  · have hlowered := lowered_sortKey other
    rw [hother.words_eq] at hlowered
    exact String.toList_inj.1 (hlowered.unique (lowered_sortKey title))
  · rw [evenGaps_eq_words]
    exact hspells.evenlySpaced

/-- Blanks of several kinds make no difference, and each of the two words ends with a sigma. -/
theorem sortKey_eq_words_twoSigmas :
    Spells "\u3000ΟΔΟΣ\t \u00A0ΟΔΌΣ\n".toList ["ΟΔΟΣ".toList, "ΟΔΌΣ".toList] ∧
      sortKey "ΟΔΟΣ ΟΔΌΣ" = "οδος οδός" ∧
      sortKey "\u3000ΟΔΟΣ\t \u00A0ΟΔΌΣ\n" = "οδος οδός" := by
  have hwords : words "ΟΔΟΣ ΟΔΌΣ".toList = ["ΟΔΟΣ".toList, "ΟΔΌΣ".toList] := by decide
  have hspells : Spells "\u3000ΟΔΟΣ\t \u00A0ΟΔΌΣ\n".toList ["ΟΔΟΣ".toList, "ΟΔΌΣ".toList] :=
    spells_iff.2 (by decide)
  have hkey : sortKey "ΟΔΟΣ ΟΔΌΣ" = "οδος οδός" := by decide
  obtain ⟨_, _, hsame, _⟩ := sortKey_eq_words "ΟΔΟΣ ΟΔΌΣ"
  rw [hwords] at hsame
  exact ⟨hspells, hkey, (hsame _ hspells).trans hkey⟩

end Outline.Title
