import Mathlib.Tactic.Convert
import Outline.Proofs.Json.Gathered
import Outline.Proofs.Json.Yields
import Outline.Proofs.Settings.Tags
import Outline.Settings.Reader

/-!
The ways to spell settings in JSON.

An object may have its fields in either order and leave out those that keep their defaults; a list
has the values in one order and may break off before such. Blanks never matter. An object that names
a field twice, or names any other, is refused at any place and with any value.
-/
namespace Outline
set_option autoImplicit false

open Json

theorem Text.utf8_eq (s : String) : Text.utf8 s = s.toList.flatMap String.utf8EncodeChar := by
  rw [Text.utf8, String.toUTF8, ← String.utf8Encode_toList, List.utf8Encode]
  simp

namespace Locale

theorem isPlain_of_char {c : Char} (h : c.isAlphanum = true ∨ c = '-') :
    ∀ b ∈ String.utf8EncodeChar c, IsPlain b := by
  have hval : c.val.toNat ≤ 127 ∧ c.val.toNat ≠ 0x22 ∧ c.val.toNat ≠ 0x5C ∧ 0x20 ≤ c.val.toNat := by
    rcases h with h | rfl
    · change (decide (65 ≤ c.val ∧ c.val ≤ 90) ||
        decide (97 ≤ c.val) && decide (c.val ≤ 122) ||
        decide (48 ≤ c.val) && decide (c.val ≤ 57)) = true at h
      simp only [Bool.or_eq_true, Bool.and_eq_true, decide_eq_true_eq, UInt32.le_iff_toNat_le] at h
      change (65 ≤ c.val.toNat ∧ c.val.toNat ≤ 90 ∨ 97 ≤ c.val.toNat ∧ c.val.toNat ≤ 122) ∨
        48 ≤ c.val.toNat ∧ c.val.toNat ≤ 57 at h
      omega
    · decide
  obtain ⟨hmost, hquote, hback, hleast⟩ := hval
  intro b hb
  rw [String.utf8EncodeChar, if_pos hmost, List.mem_singleton] at hb
  have hb : b.toNat = c.val.toNat := by
    rw [hb, UInt8.toNat_ofNat']
    omega
  refine ⟨?_, ?_, fun hlow => ?_⟩
  · rintro rfl
    exact hquote hb.symm
  · rintro rfl
    exact hback hb.symm
  · have hlow : b.toNat < 0x20 := hlow
    omega

/-- A tag needs no escapes. -/
theorem isPlainText_of_isTag {s : String} (h : isTag s = true) : IsPlainText s := by
  intro b hb
  rw [Text.utf8_eq] at hb
  obtain ⟨c, hc, hb⟩ := List.mem_flatMap.1 hb
  exact isPlain_of_char (chars_of_isTag h c hc) b hb

end Locale

namespace Settings

/-- A text in quotes as it is. -/
def quoted (t : String) : Bytes := 0x22 :: (Text.utf8 t ++ [0x22])

/-- The member that gives the locale. -/
def localeMember (s : Settings) : Member := ⟨quoted "locale", quoted s.locale⟩

/-- The member that gives the width. -/
def widthMember (s : Settings) : Member := ⟨quoted "toc_title_max_chars", writeInt s.titleWidth⟩

/-- The members that spell settings: both in either order, or one where the other keeps its default,
or none where both do. -/
inductive Members (s : Settings) : List Member → Prop
  | both : Members s [s.localeMember, s.widthMember]
  | swapped : Members s [s.widthMember, s.localeMember]
  | locale : s.titleWidth = ({} : Settings).titleWidth → Members s [s.localeMember]
  | width : s.locale = ({} : Settings).locale → Members s [s.widthMember]
  | none : s = {} → Members s []

/-- The elements that spell settings, which break off only before defaults. -/
inductive Elements (s : Settings) : List Bytes → Prop
  | both : Elements s [quoted s.locale, writeInt s.titleWidth]
  | locale : s.titleWidth = ({} : Settings).titleWidth → Elements s [quoted s.locale]
  | none : s = {} → Elements s []

/-- The values that spell settings, without the blanks around them. -/
inductive Spells (s : Settings) : Bytes → Prop
  | object {ms : List Member} {v : Bytes} : Members s ms → IsObject ms v → Spells s v
  | list {vs : List Bytes} {v : Bytes} : Elements s vs → IsList vs v → Spells s v

/-- A member that may not be added to some others: if its name is that of a field at all, one of the
others has it, too. -/
def Superfluous (ms : List Member) (extra : Member) : Prop :=
  ∀ name, extra.name? = some name → name = "locale" ∨ name = "toc_title_max_chars" →
    ∃ m ∈ ms, m.name? = some name

section Reading

variable {s : Settings} {f : Fields} {bs v : Bytes} {ms : List Member}

theorem delimits_width (h : IsValue v) : Delimits width v :=
  (delimits_integer _ _ h).map

theorem readsMembers_member : ReadsMembers member := by
  intro name f v hv
  unfold member
  split
  · exact (readsSpaced_once _ (readsSpaced_one skipsBlanks_text (delimits_text hv))).bind_pure
  split
  · exact (readsSpaced_once _
      (readsSpaced_one ((skipsBlanks_integer _ _).map _) (delimits_width hv))).bind_pure
  · exact readsSpaced_throw _ _

/-- However an object is spaced, it is read as what its members say. -/
theorem value_object (hms : ∀ m ∈ ms, m.Proper) (hv : IsObject ms v) (hs : Spaced [v] bs) :
    readAll value bs = (gather member {} ms).map Fields.toSettings := by
  obtain ⟨inner, rest, hpeek, hrest, hbody⟩ := objectBody_spaced readsMembers_member hms hv hs {}
  refine readAll_of_outcome ?_ hrest
  unfold value
  rw [reader_bind_of_ok hpeek, if_neg (by decide), if_pos rfl]
  change (objectBody member {} inner >>= _) = _
  rw [hbody]
  cases gather member {} ms <;> rfl

theorem isText_quoted {t : String} (h : IsPlainText t) : IsText (quoted t) :=
  ⟨quoted_plain h⟩

theorem text_quoted {t : String} (h : IsPlainText t) : Takes text (quoted t) t := by
  rw [quoted, ← writeText_plain h]
  exact takes_text t

theorem isPlainText_locale : IsPlainText "locale" := by decide

theorem isPlainText_width : IsPlainText "toc_title_max_chars" := by decide

theorem isValue_width (n : Nat) : IsValue (writeInt n) := by
  rw [writeInt_ofNat]
  exact .number (isNumeral_digits n)

theorem takes_width {n : Nat} (h : n ≤ Word.maxUnsigned64) : Takes width (writeInt n) n := by
  have hint : Takes (integer 0 Word.maxUnsigned64) (writeInt n) n :=
    takes_integer (by decide) (Int.le_refl _) (by omega) (by omega)
  exact hint.map (g := Int.toNat)

theorem gather_locale (hf : f.locale = none) (hs : IsPlainText s.locale) :
    gather member f (s.localeMember :: ms) =
      gather member { f with locale := some s.locale } ms := by
  have hmember : Takes (member "locale" f) (0x3A :: quoted s.locale)
      { f with locale := some s.locale } := by
    unfold member
    rw [if_pos rfl, hf]
    exact (takes_once (text_quoted hs)).bind_pure
  exact gather_cons (text_quoted isPlainText_locale).alone hmember.alone

theorem gather_width (hf : f.titleWidth = none) (hs : s.titleWidth ≤ Word.maxUnsigned64) :
    gather member f (s.widthMember :: ms) =
      gather member { f with titleWidth := some s.titleWidth } ms := by
  have hmember : Takes (member "toc_title_max_chars" f) (0x3A :: writeInt s.titleWidth)
      { f with titleWidth := some s.titleWidth } := by
    unfold member
    rw [if_neg (by decide), if_pos rfl, hf]
    exact (takes_once (takes_width hs)).bind_pure
  exact gather_cons (text_quoted isPlainText_width).alone hmember.alone

/-- What the members of settings say is those settings. -/
theorem gather_members (hms : s.Members ms) (hlocale : IsPlainText s.locale)
    (hwidth : s.titleWidth ≤ Word.maxUnsigned64) :
    (gather member {} ms).map Fields.toSettings = .ok s := by
  cases hms with
  | both =>
    rw [gather_locale rfl hlocale, gather_width rfl hwidth]
    rfl
  | swapped =>
    rw [gather_width rfl hwidth, gather_locale rfl hlocale]
    rfl
  | locale h =>
    rw [gather_locale rfl hlocale]
    change Except.ok (⟨s.locale, ({} : Settings).titleWidth⟩ : Settings) = _
    rw [← h]
  | width h =>
    rw [gather_width rfl hwidth]
    change Except.ok (⟨({} : Settings).locale, s.titleWidth⟩ : Settings) = _
    rw [← h]
  | none h =>
    rw [h]
    rfl

theorem proper_of_members (hms : s.Members ms) (hlocale : IsPlainText s.locale) :
    ∀ m ∈ ms, m.Proper := by
  have hfirst : s.localeMember.Proper :=
    ⟨isText_quoted isPlainText_locale, .text (isText_quoted hlocale)⟩
  have hsecond : s.widthMember.Proper := ⟨isText_quoted isPlainText_width, isValue_width _⟩
  cases hms <;> simp [hfirst, hsecond]

end Reading

section Lists

variable {s : Settings} {bs inner v : Bytes} {vs : List Bytes}

/-- The elements of settings are read as those settings. -/
theorem listBody_elements (hvs : s.Elements vs) (hlocale : IsPlainText s.locale)
    (hwidth : s.titleWidth ≤ Word.maxUnsigned64)
    (hs : Spaced (listed true (vs.map fun v => [v]) ++ [[0x5D]]) inner) :
    ∃ f rest, Blanks rest ∧ listBody inner = .ok (f, rest) ∧ f.toSettings = s := by
  have hstarts : Starts (quoted s.locale) := (IsValue.text (isText_quoted hlocale)).starts
  cases hvs with
  | none h =>
    obtain ⟨rest, ⟨hrest⟩, hhas⟩ := hasElement_end hs
    refine ⟨{}, rest, hrest, ?_, h.symm⟩
    unfold listBody
    rw [reader_bind_of_ok hhas]
    rfl
  | locale h =>
    obtain ⟨next, rest, hrest, hhas, hread⟩ := element_spaced hstarts (text_quoted hlocale) hs
    obtain ⟨after, ⟨hafter⟩, hend⟩ := hasElement_end hrest
    refine ⟨{ locale := some s.locale }, after, hafter, ?_, ?_⟩
    · unfold listBody
      rw [reader_bind_of_ok hhas]
      refine (reader_bind_of_ok hread).trans ?_
      rw [reader_bind_of_ok hend]
      rfl
    · change (⟨s.locale, ({} : Settings).titleWidth⟩ : Settings) = s
      rw [← h]
  | both =>
    obtain ⟨next, rest, hrest, hhas, hread⟩ := element_spaced hstarts (text_quoted hlocale) hs
    obtain ⟨next', rest', hrest', hhas', hread'⟩ :=
      element_spaced (isValue_width _).starts (takes_width hwidth) hrest
    obtain ⟨after, hafter, hclose⟩ := closeList_spaced hrest'
    refine ⟨⟨some s.locale, some s.titleWidth⟩, after, hafter, ?_, rfl⟩
    unfold listBody
    rw [reader_bind_of_ok hhas]
    refine (reader_bind_of_ok hread).trans ?_
    rw [reader_bind_of_ok hhas']
    refine (reader_bind_of_ok hread').trans ?_
    rw [reader_bind_of_ok hclose]
    rfl

/-- However a list of elements of settings is spaced, it is read as those settings. -/
theorem value_list (hvs : s.Elements vs) (hlocale : IsPlainText s.locale)
    (hwidth : s.titleWidth ≤ Word.maxUnsigned64) (hv : IsList vs v) (hs : Spaced [v] bs) :
    readAll value bs = .ok s := by
  obtain ⟨inner, hpeek, hinner⟩ := list_spaced hv hs
  obtain ⟨f, rest, hrest, hbody, hf⟩ := listBody_elements hvs hlocale hwidth hinner
  have hvalue : value bs = (.ok s : Except Fault Settings).map fun s => (s, rest) := by
    unfold value
    rw [reader_bind_of_ok hpeek, if_pos rfl]
    change (listBody inner >>= _) = _
    rw [hbody, ← hf]
    rfl
  exact readAll_of_outcome hvalue hrest

end Lists

section Refusals

/-- Whether the field of some name was met. -/
def Fields.Has (f : Fields) (name : String) : Prop :=
  (name = "locale" ∧ f.locale.isSome) ∨ (name = "toc_title_max_chars" ∧ f.titleWidth.isSome)

theorem yields_once_unseen {α : Type} (seen : Option α) (r : Reader α) :
    Yields (fun found => seen = none ∧ found.isSome) (once seen r) (once seen r) := by
  cases seen with
  | none => exact yields_after fun _ => yields_after fun _ => yields_pure ⟨rfl, rfl⟩
  | some a => exact yields_throw _ _

/-- A member that is taken is that of a field not met before. -/
theorem yields_member (name : String) (f : Fields) :
    Yields (fun f' => (name = "locale" ∨ name = "toc_title_max_chars") ∧ ¬ f.Has name ∧
      ∀ other, f.Has other ∨ other = name → f'.Has other) (member name f) (member name f) := by
  unfold member
  refine yields_ite (fun hname => ?_) fun _ => yields_ite (fun hname => ?_) fun _ =>
    yields_throw _ _
  · refine (yields_once_unseen _ _).bind fun found ⟨hunseen, hfound⟩ => yields_pure ?_
    refine ⟨.inl hname, ?_, ?_⟩
    · rintro (⟨_, hmet⟩ | ⟨hother, _⟩)
      · rw [hunseen] at hmet
        cases hmet
      · exact absurd (hname.symm.trans hother) (by decide)
    · rintro other ((⟨hother, _⟩ | hmet) | rfl)
      · exact .inl ⟨hother, hfound⟩
      · exact .inr hmet
      · exact .inl ⟨hname, hfound⟩
  · refine (yields_once_unseen _ _).bind fun found ⟨hunseen, hfound⟩ => yields_pure ?_
    refine ⟨.inr hname, ?_, ?_⟩
    · rintro (⟨hother, _⟩ | ⟨_, hmet⟩)
      · exact absurd (hother.symm.trans hname) (by decide)
      · rw [hunseen] at hmet
        cases hmet
    · rintro other ((hmet | ⟨hother, _⟩) | rfl)
      · exact .inl hmet
      · exact .inr ⟨hother, hfound⟩
      · exact .inr ⟨hname, hfound⟩

/-- Members that are taken have the names of fields, and each of them only one has. -/
theorem gather_ok {f' : Fields} (ms : List Member) : ∀ f, gather member f ms = .ok f' →
    (∀ m ∈ ms, ∃ name, m.name? = some name ∧
      (name = "locale" ∨ name = "toc_title_max_chars") ∧ ¬ f.Has name) ∧
    ms.Pairwise fun m m' => m.name? ≠ m'.name? := by
  induction ms with
  | nil => exact fun f _ => ⟨nofun, .nil⟩
  | cons m ms ih =>
    intro f h
    rw [gather] at h
    cases hname : text m.name with
    | error fault =>
      rw [hname] at h
      cases h
    | ok p =>
      obtain ⟨name, rest⟩ := p
      rw [hname] at h
      change (member name f (0x3A :: m.value) >>= _) = _ at h
      cases hmember : member name f (0x3A :: m.value) with
      | error fault =>
        rw [hmember] at h
        cases h
      | ok q =>
        obtain ⟨next, rest'⟩ := q
        rw [hmember] at h
        obtain ⟨hfield, hunmet, hmet⟩ := (yields_member name f _ _ _ hmember).1
        obtain ⟨hlater, hapart⟩ := ih next h
        have hm : m.name? = some name := by rw [Member.name?, hname]
        refine ⟨List.forall_mem_cons.2 ⟨⟨name, hm, hfield, hunmet⟩, fun m' hm' => ?_⟩,
          List.pairwise_cons.2 ⟨fun m' hm' heq => ?_, hapart⟩⟩
        · obtain ⟨name', hname', hfield', hunmet'⟩ := hlater m' hm'
          exact ⟨name', hname', hfield', fun hf => hunmet' (hmet name' (.inl hf))⟩
        · obtain ⟨name', hname', _, hunmet'⟩ := hlater m' hm'
          rw [hm, hname'] at heq
          exact hunmet' (hmet name' (.inr (Option.some.inj heq).symm))

/-- With a superfluous member among them, members are not taken. -/
theorem gather_superfluous {before after : List Member} {extra : Member}
    (h : Superfluous (before ++ after) extra) :
    ∃ fault, gather member {} (before ++ extra :: after) = .error fault := by
  cases hgather : gather member {} (before ++ extra :: after) with
  | error fault => exact ⟨fault, rfl⟩
  | ok f =>
    exfalso
    obtain ⟨hnames, hapart⟩ := gather_ok _ {} hgather
    obtain ⟨name, hname, hfield, _⟩ := hnames extra (by simp)
    obtain ⟨m, hm, hsame⟩ := h name hname hfield
    obtain ⟨_, hafter, hbefore⟩ := List.pairwise_append.1 hapart
    rcases List.mem_append.1 hm with hm | hm
    · exact hbefore m hm extra List.mem_cons_self (hsame.trans hname.symm)
    · exact (List.pairwise_cons.1 hafter).1 m hm (hname.trans hsame.symm)

end Refusals

theorem ofJson_of_error {raw : String} {fault : Fault}
    (h : readAll value (Text.utf8 raw) = .error fault) :
    ofJson raw = .error (.unreadable fault) := by
  rw [ofJson, h]

theorem ofJson_of_ok {raw : String} {s : Settings} (h : readAll value (Text.utf8 raw) = .ok s)
    (hs : s.check = .ok ()) : ofJson raw = .ok s := by
  rw [ofJson, h]
  simp only [hs]

theorem isTag_of_check {s : Settings} (hs : s.check = .ok ()) : Locale.isTag s.locale = true :=
  ((check_iff_isTag s).1 hs).1

/-- Settings that pass their checks are read from every way to spell them, and an object with a
superfluous member besides is refused as unreadable. -/
theorem ofJson_spelled {s : Settings} (hs : s.check = .ok ())
    (hmost : s.titleWidth ≤ Word.maxUnsigned64) :
    (∀ raw v, s.Spells v → Spaced [v] (Text.utf8 raw) → ofJson raw = .ok s) ∧
    ∀ raw v before extra after, s.Members (before ++ after) → extra.Proper →
      Superfluous (before ++ after) extra → IsObject (before ++ extra :: after) v →
      Spaced [v] (Text.utf8 raw) → ∃ fault, ofJson raw = .error (.unreadable fault) := by
  have hlocale := Locale.isPlainText_of_isTag (isTag_of_check hs)
  constructor
  · rintro raw v (⟨hms, hv⟩ | ⟨hvs, hv⟩) hraw
    · have hread := value_object (proper_of_members hms hlocale) hv hraw
      rw [gather_members hms hlocale hmost] at hread
      exact ofJson_of_ok hread hs
    · exact ofJson_of_ok (value_list hvs hlocale hmost hv hraw) hs
  · intro raw v before extra after hms hextra hsuperfluous hv hraw
    have hproper : ∀ m ∈ before ++ extra :: after, m.Proper := by
      intro m hm
      rcases List.mem_cons.1 (List.perm_middle.mem_iff.1 hm) with rfl | hm
      · exact hextra
      · exact proper_of_members hms hlocale m hm
    obtain ⟨fault, hfault⟩ := gather_superfluous hsuperfluous
    have hread := value_object hproper hv hraw
    rw [hfault] at hread
    exact ⟨fault, ofJson_of_error hread⟩

/-- Two spellings with blanks: the fields in the other order, and the locale named a second time. -/
theorem ofJson_spelled_blanks :
    ofJson " \x7b\"toc_title_max_chars\" : 40,\n\t\"locale\":\"pt-BR\"\x7d " = .ok ⟨"pt-BR", 40⟩ ∧
    ∃ fault, ofJson "\x7b\"locale\":\"pt-BR\", \"locale\":null,\"toc_title_max_chars\":40\x7d" =
      .error (.unreadable fault) := by
  obtain ⟨hread, hrefuse⟩ := ofJson_spelled (s := ⟨"pt-BR", 40⟩) rfl (by decide)
  have hnone : Blanks [] := blanks_nil
  have hone : Blanks [0x20] := by decide
  have htwo : Blanks [0x0A, 0x09] := by decide
  have hwidth : (widthMember ⟨"pt-BR", 40⟩).value = [0x34, 0x30] := by
    have hdigits : Decimal.digits 40 = [4, 0] := by simp [Decimal.digits]
    rw [widthMember, writeInt_ofNat, hdigits]
    rfl
  constructor
  · refine hread _ _ (.object .swapped (.braces (.token hnone (.token hone (.token hone
      (.token hnone (.token htwo (.token hnone (.token hnone (.done hnone)))))))))) ?_
    convert Spaced.token hone (.done hone) using 1
    rw [hwidth]
    decide
  · have hextra : Member.Proper ⟨quoted "locale", [0x6E, 0x75, 0x6C, 0x6C]⟩ :=
      ⟨isText_quoted isPlainText_locale, .wordNull⟩
    refine hrefuse _ _ [localeMember _] ⟨quoted "locale", [0x6E, 0x75, 0x6C, 0x6C]⟩ [widthMember _]
      .both hextra ?_ (.braces (.token hnone (.token hnone (.token hnone (.token hnone
        (.token hone (.token hnone (.token hnone (.token hnone (.token hnone (.token hnone
          (.token hnone (.done hnone))))))))))))) ?_
    · intro name hname _
      exact ⟨_, List.mem_cons_self, hname⟩
    · convert Spaced.token hnone (.done hnone) using 1
      rw [hwidth]
      decide

end Settings

end Outline
