import Mathlib.Data.List.DropRight
import Outline.Title.Shorten

/-!
Titles cut to a width.

A title that is too long is cut before the last boundary that leaves room for the ellipsis, and within
its first word when there is none. The blanks before the cut go as well. A boundary before the first
character does not count, but one that follows nothing but blanks does: of a title that starts with
blanks, the ellipsis may be all that is left.
-/
namespace Outline.Title
set_option autoImplicit false

open Outline.Text

variable {title cs : List Char} {c : Char} {start keep cut i width : Nat}

/-- Whether a text may be cut before its character at a position. -/
def BoundaryAt (cs : List Char) (i : Nat) : Prop := cs[i]?.any isBoundary = true

instance (cs : List Char) (i : Nat) : Decidable (BoundaryAt cs i) :=
  inferInstanceAs (Decidable (_ = true))

theorem boundaryAt_cons_zero : BoundaryAt (c :: cs) 0 ↔ isBoundary c = true := by
  rw [BoundaryAt, List.getElem?_cons_zero, Option.any_some]

theorem boundaryAt_cons_succ : BoundaryAt (c :: cs) (i + 1) ↔ BoundaryAt cs i := by
  rw [BoundaryAt, List.getElem?_cons_succ, BoundaryAt]

/-- Where a title is cut of which so many characters may be kept: before the last boundary that
follows the first character and is not past them, and after all of them when there is none. -/
inductive CutsAt (title : List Char) (keep : Nat) : Nat → Prop where
  | boundary {cut : Nat} (follows : 1 ≤ cut) (fits : cut ≤ keep) (boundary : BoundaryAt title cut)
      (last : ∀ j, cut < j → j ≤ keep → ¬ BoundaryAt title j) : CutsAt title keep cut
  | hard (unbroken : ∀ j, 1 ≤ j → j ≤ keep → ¬ BoundaryAt title j) : CutsAt title keep keep

theorem CutsAt.le (h : CutsAt title keep cut) : cut ≤ keep := by
  cases h with
  | boundary follows fits boundary last => exact fits
  | hard unbroken => exact Nat.le_refl keep

section LastBoundary

theorem not_boundaryAt_of_lastBoundaryFrom (h : lastBoundaryFrom start cs = none) (i : Nat) :
    ¬ BoundaryAt cs i := by
  induction cs generalizing start i with
  | nil => exact Bool.false_ne_true
  | cons c cs ih =>
    rw [lastBoundaryFrom, Option.or_eq_none_iff] at h
    cases i with
    | zero =>
      rw [boundaryAt_cons_zero]
      intro hc
      rw [if_pos hc] at h
      cases h.2
    | succ i =>
      rw [boundaryAt_cons_succ]
      exact ih h.1 i

theorem boundaryAt_of_lastBoundaryFrom (h : lastBoundaryFrom start cs = some cut) :
    ∃ i, cut = start + i ∧ BoundaryAt cs i ∧ ∀ j, i < j → ¬ BoundaryAt cs j := by
  induction cs generalizing start with
  | nil => cases h
  | cons c cs ih =>
    rw [lastBoundaryFrom] at h
    cases hrest : lastBoundaryFrom (start + 1) cs with
    | some found =>
      rw [hrest, Option.some_or] at h
      cases h
      obtain ⟨i, rfl, hi, hlast⟩ := ih hrest
      refine ⟨i + 1, by omega, boundaryAt_cons_succ.2 hi, fun j hj => ?_⟩
      cases j with
      | zero => exact absurd hj (Nat.not_lt_zero _)
      | succ j =>
        rw [boundaryAt_cons_succ]
        exact hlast j (Nat.lt_of_succ_lt_succ hj)
    | none =>
      rw [hrest, Option.none_or] at h
      split at h
      · next hc =>
        cases h
        refine ⟨0, rfl, boundaryAt_cons_zero.2 hc, fun j hj => ?_⟩
        cases j with
        | zero => exact absurd hj (Nat.not_lt_zero _)
        | succ j =>
          rw [boundaryAt_cons_succ]
          exact not_boundaryAt_of_lastBoundaryFrom hrest j
      · cases h

end LastBoundary

/-- The window holds the positions from which the last boundary is taken. -/
theorem cutsAt_cutPoint (keep : Nat) (title : List Char) :
    CutsAt title keep (cutPoint keep (title.take (keep + 1))) := by
  have hwindow (i : Nat) : BoundaryAt ((title.take (keep + 1)).drop 1) i ↔
      i < keep ∧ BoundaryAt title (i + 1) := by
    rw [BoundaryAt, BoundaryAt, List.getElem?_drop, List.getElem?_take, Nat.add_comm 1 i]
    split
    · next hi => exact (and_iff_right (by omega)).symm
    · next hi => exact ⟨fun h => absurd h Bool.false_ne_true, fun h => absurd h.1 (by omega)⟩
  rw [cutPoint]
  cases hlast : lastBoundaryFrom 1 ((title.take (keep + 1)).drop 1) with
  | none =>
    refine .hard fun j hpos hj hboundary => ?_
    refine not_boundaryAt_of_lastBoundaryFrom hlast (j - 1) ((hwindow _).2 ⟨by omega, ?_⟩)
    rwa [Nat.sub_add_cancel hpos]
  | some cut =>
    obtain ⟨i, rfl, hi, hafter⟩ := boundaryAt_of_lastBoundaryFrom hlast
    rw [hwindow] at hi
    rw [Option.getD_some]
    refine .boundary (by omega) (by omega) (by rw [Nat.add_comm]; exact hi.2) ?_
    intro j hj hfits hboundary
    refine hafter (j - 1) (by omega) ((hwindow _).2 ⟨by omega, ?_⟩)
    rwa [Nat.sub_add_cancel (by omega)]

theorem shortenChars_of_le (h : title.length ≤ width) : shortenChars title width = title :=
  if_pos h

/-- A title that is too long is cut, loses the blanks at its end and gets the ellipsis. -/
theorem shortenChars_of_lt (h : width < title.length) :
    ∃ cut, CutsAt title (width - 1) cut ∧
      shortenChars title width = (title.take cut).rdropWhile isBlank ++ [ellipsis] := by
  have hcut := cutsAt_cutPoint (width - 1) title
  refine ⟨_, hcut, ?_⟩
  have hle := hcut.le
  rw [shortenChars, if_neg (Nat.not_le.2 h)]
  simp only
  rw [List.take_take, Nat.min_eq_left (by omega)]
  rfl

theorem length_shortenChars_le (h : 1 ≤ width) (title : List Char) :
    (shortenChars title width).length ≤ width := by
  by_cases hfits : title.length ≤ width
  · rw [shortenChars_of_le hfits]
    exact hfits
  · obtain ⟨cut, hcut, heq⟩ := shortenChars_of_lt (Nat.not_le.1 hfits)
    have hle := hcut.le
    have hkept := (List.rdropWhile_prefix isBlank (title.take cut)).length_le
    rw [List.length_take] at hkept
    rw [heq, List.length_append, List.length_singleton]
    omega

/-- A title of at most so many characters comes of shortening to a width. One that fits stays as it
is; of any other, the part before the cut is kept without the blanks at its end, and the ellipsis
follows. Shortened again, a title stays as it is. -/
theorem shorten_cuts (title : String) (width : Nat) (h : 1 ≤ width) :
    (shorten title width).length ≤ width ∧
      (title.length ≤ width → shorten title width = title) ∧
      (width < title.length → ∃ cut, CutsAt title.toList (width - 1) cut ∧
        (shorten title width).toList = (title.toList.take cut).rdropWhile isBlank ++ ['…']) ∧
      shorten (shorten title width) width = shorten title width := by
  have hshort (s : String) (hs : s.length ≤ width) : shorten s width = s := by
    rw [shorten, shortenChars_of_le (by rwa [String.length_toList]), String.ofList_toList]
  have hlength : (shorten title width).length ≤ width := by
    rw [shorten, String.length_ofList]
    exact length_shortenChars_le h title.toList
  refine ⟨hlength, hshort title, fun hlong => ?_, hshort _ hlength⟩
  rw [shorten, String.toList_ofList]
  exact shortenChars_of_lt (by rwa [String.length_toList])

/-- Of a title of seven characters, four before the ellipsis may be kept. The only boundary among
them is the hyphen, so the letter behind it goes too, though it would fit. -/
theorem shorten_cuts_beforeHyphen :
    1 ≤ 5 ∧ shorten "né-élan" 5 = "né…" ∧ (shorten "né-élan" 5).length ≤ 5 ∧
      (∃ cut, CutsAt "né-élan".toList 4 cut ∧
        (shorten "né-élan" 5).toList =
          ("né-élan".toList.take cut).rdropWhile isBlank ++ ['…']) ∧
      shorten (shorten "né-élan" 5) 5 = shorten "né-élan" 5 := by
  obtain ⟨hlength, _, hcut, hagain⟩ := shorten_cuts "né-élan" 5 (by decide)
  exact ⟨by decide, by decide, hlength, hcut (by decide), hagain⟩

section Telling

/-- Taking the blanks off the end of a text leaves something unless there are blanks only. -/
theorem exists_nonblank_rdropWhile :
    (∃ c ∈ cs.rdropWhile isBlank, isBlank c = false) ↔ ∃ c ∈ cs, isBlank c = false := by
  constructor
  · rintro ⟨c, hc, hblank⟩
    exact ⟨c, (List.rdropWhile_prefix isBlank cs).subset hc, hblank⟩
  · rintro ⟨c, hc, hblank⟩
    have hne : cs.rdropWhile isBlank ≠ [] := by
      intro hnil
      rw [List.rdropWhile_eq_nil_iff] at hnil
      rw [hnil c hc] at hblank
      cases hblank
    exact ⟨_, List.getLast_mem hne, Bool.eq_false_iff.2 (List.rdropWhile_last_not isBlank cs hne)⟩

theorem exists_nonblank_take :
    (∃ c ∈ title.take cut, isBlank c = false) ↔
      ∃ i c, i < cut ∧ title[i]? = some c ∧ isBlank c = false := by
  constructor
  · rintro ⟨c, hc, hblank⟩
    obtain ⟨i, hi⟩ := List.mem_iff_getElem?.1 hc
    rw [List.getElem?_take] at hi
    split at hi
    · next hcut => exact ⟨i, c, hcut, hi, hblank⟩
    · cases hi
  · rintro ⟨i, c, hcut, hi, hblank⟩
    refine ⟨c, List.mem_iff_getElem?.2 ⟨i, ?_⟩, hblank⟩
    rw [List.getElem?_take, if_pos hcut, hi]

/-- A position comes before the cut when it is the first, when a boundary follows it in the window,
or when the window has no boundary and leaves room for it. -/
theorem CutsAt.lt_iff (h : CutsAt title (width - 1) cut) (hwidth : 2 ≤ width) :
    i < cut ↔ i = 0 ∨ (∃ j, i < j ∧ j < width ∧ BoundaryAt title j) ∨
      (i + 1 < width ∧ ∀ j < width, 1 ≤ j → ¬ BoundaryAt title j) := by
  cases h with
  | boundary follows fits boundary last =>
    constructor
    · exact fun hi => .inr (.inl ⟨cut, hi, by omega, boundary⟩)
    · rintro (rfl | ⟨j, hij, hj, hboundary⟩ | ⟨_, hnone⟩)
      · exact follows
      · have hle : j ≤ cut := Nat.not_lt.1 fun hlt => last j hlt (by omega) hboundary
        exact Nat.lt_of_lt_of_le hij hle
      · exact absurd boundary (hnone cut (by omega) follows)
  | hard unbroken =>
    constructor
    · exact fun hi => .inr (.inr ⟨by omega, fun j hj hpos => unbroken j hpos (by omega)⟩)
    · rintro (rfl | ⟨j, hij, hj, hboundary⟩ | ⟨hi, _⟩)
      · omega
      · exact absurd hboundary (unbroken j (by omega) (by omega))
      · omega

/-- Whether a title shortened to a width tells something of it: what is kept of the title, without
the ellipsis, is more than blanks. -/
def Telling (title : String) (width : Nat) : Prop :=
  ∃ kept, kept <+: title.toList ∧ (∃ c ∈ kept, isBlank c = false) ∧
    (shorten title width).toList = if title.length ≤ width then kept else kept ++ ['…']

theorem telling_of_le {title : String} (h : title.length ≤ width) :
    Telling title width ↔ ∃ c ∈ title.toList, isBlank c = false := by
  have hkept : (shorten title width).toList = title.toList := by
    rw [shorten, String.toList_ofList, shortenChars_of_le (by rwa [String.length_toList])]
  simp only [Telling, if_pos h, hkept]
  constructor
  · rintro ⟨_, _, hblank, rfl⟩
    exact hblank
  · exact fun hblank => ⟨_, List.prefix_rfl, hblank, rfl⟩

theorem telling_of_lt {title : String} (h : width < title.length) :
    ∃ cut, CutsAt title.toList (width - 1) cut ∧
      (Telling title width ↔ ∃ c ∈ title.toList.take cut, isBlank c = false) := by
  obtain ⟨cut, hcut, heq⟩ := shortenChars_of_lt (by rwa [String.length_toList])
  refine ⟨cut, hcut, ?_⟩
  have hkept : (shorten title width).toList =
      (title.toList.take cut).rdropWhile isBlank ++ ['…'] := by
    rw [shorten, String.toList_ofList, heq]
    rfl
  simp only [Telling, if_neg (Nat.not_le.2 h), hkept, List.append_cancel_right_eq]
  rw [← exists_nonblank_rdropWhile]
  constructor
  · rintro ⟨_, _, hblank, rfl⟩
    exact hblank
  · intro hblank
    have hpre := (List.rdropWhile_prefix isBlank (title.toList.take cut)).trans
      (List.take_prefix cut title.toList)
    exact ⟨_, hpre, hblank, rfl⟩

/-- A title shortened to a width of two or more tells something of it just when the title has a
character, no blank, that comes before the cut: the title fits, or the character is the first, or a
boundary follows it in the window, or the window has no boundary and leaves room for it. So it does
for every title that does not start with a blank. -/
theorem telling_iff (title : String) (width : Nat) (hwidth : 2 ≤ width) :
    Telling title width ↔ ∃ i c, title.toList[i]? = some c ∧ isBlank c = false ∧
      (title.length ≤ width ∨ i = 0 ∨
        (∃ j, i < j ∧ j < width ∧ BoundaryAt title.toList j) ∨
        (i + 1 < width ∧ ∀ j < width, 1 ≤ j → ¬ BoundaryAt title.toList j)) := by
  by_cases hfits : title.length ≤ width
  · rw [telling_of_le hfits]
    simp only [hfits, true_or, and_true]
    constructor
    · rintro ⟨c, hc, hblank⟩
      obtain ⟨i, hi⟩ := List.mem_iff_getElem?.1 hc
      exact ⟨i, c, hi, hblank⟩
    · rintro ⟨i, c, hi, hblank⟩
      exact ⟨c, List.mem_of_getElem? hi, hblank⟩
  · obtain ⟨cut, hcut, htelling⟩ := telling_of_lt (Nat.not_le.1 hfits)
    rw [htelling, exists_nonblank_take]
    simp only [hfits, false_or]
    constructor
    · rintro ⟨i, c, hi, hc, hblank⟩
      exact ⟨i, c, hc, hblank, (hcut.lt_iff hwidth).1 hi⟩
    · rintro ⟨i, c, hc, hblank, hi⟩
      exact ⟨i, c, (hcut.lt_iff hwidth).2 hi, hc, hblank⟩

/-- After one blank the first word is cut where the room ends. -/
theorem telling_iff_oneBlank : 2 ≤ 5 ∧ shorten " abcdef" 5 = " abc…" ∧ Telling " abcdef" 5 := by
  refine ⟨by decide, by decide, (telling_iff " abcdef" 5 (by decide)).2 ⟨1, 'a', ?_⟩⟩
  exact ⟨by decide, by decide, .inr (.inr (.inr ⟨by decide, by decide⟩))⟩

/-- After two blanks it is not: the second of them is the last boundary, and nothing is left. -/
theorem shorten_wordless :
    ¬ ∀ (title : String) (width : Nat), 2 ≤ width → (∃ c ∈ title.toList, isBlank c = false) →
      Telling title width := by
  intro h
  obtain ⟨kept, _, ⟨c, hc, _⟩, hkept⟩ := h "  abcdef" 5 (by decide) ⟨'a', by decide, by decide⟩
  have hbare : (shorten "  abcdef" 5).toList = ['…'] := by decide
  rw [hbare, if_neg (by decide)] at hkept
  rw [List.self_eq_append_left.1 hkept] at hc
  cases hc

end Telling

end Outline.Title
