import Outline.Proofs.Json.Grammar

/-!
A reader that is given a value stops at its end.

What it makes of the value, or why it refuses it, does not depend on what follows. This holds of the
readers of texts and of whole numbers, whatever kind of value they are given.
-/
namespace Outline.Json
set_option autoImplicit false

section Reader

variable {α β : Type} {r r' : Reader α} {f : α → Reader β} {b : UInt8} {bs : Bytes}

/-- What a reader makes of some bytes does not depend on what follows them, and that is left. -/
def Delimits (r : Reader α) (bs : Bytes) : Prop :=
  ∃ outcome : Except Fault α, ∀ rest, Follows rest → r (bs ++ rest) = outcome.map fun a => (a, rest)

theorem delimits_pure (a : α) : Delimits (pure a) [] := ⟨.ok a, fun _ _ => rfl⟩

theorem delimits_throw (fault : Fault) (bs : Bytes) : Delimits (throw fault : Reader α) bs :=
  ⟨.error fault, fun _ _ => rfl⟩

/-- The outcome is the one without anything that follows. -/
theorem Delimits.eq (h : Delimits r bs) {rest : Bytes} (hrest : Follows rest) :
    r (bs ++ rest) = (r bs).map fun p => (p.1, rest) := by
  obtain ⟨outcome, houtcome⟩ := h
  have halone := houtcome [] nofun
  rw [List.append_nil] at halone
  rw [houtcome rest hrest, halone]
  cases outcome <;> rfl

theorem Delimits.of_eq {bs' : Bytes} (h : Delimits r' bs')
    (heq : ∀ rest, r (bs ++ rest) = r' (bs' ++ rest)) : Delimits r bs := by
  obtain ⟨outcome, houtcome⟩ := h
  exact ⟨outcome, fun rest hrest => (heq rest).trans (houtcome rest hrest)⟩

/-- What is done with a value after it was read takes nothing more of the input. -/
theorem Delimits.bind (h : Delimits r bs) (hf : ∀ a, Delimits (f a) []) :
    Delimits (r >>= f) bs := by
  obtain ⟨outcome, houtcome⟩ := h
  cases outcome with
  | error fault =>
    refine ⟨.error fault, fun rest hrest => ?_⟩
    change (r (bs ++ rest) >>= fun p => f p.1 p.2) = _
    rw [houtcome rest hrest]
    rfl
  | ok a =>
    obtain ⟨outcome, hnext⟩ := hf a
    exact ⟨outcome, fun rest hrest =>
      (reader_bind_of_ok (houtcome rest hrest)).trans (hnext rest hrest)⟩

theorem Delimits.map {g : α → β} (h : Delimits r bs) : Delimits (g <$> r) bs := by
  rw [← bind_pure_comp]
  exact h.bind fun a => delimits_pure (g a)

theorem delimits_peekValue {f : UInt8 → Reader α} (hb : isBlank b = false)
    (h : Delimits (f b) (b :: bs)) : Delimits (peekValue >>= f) (b :: bs) :=
  h.of_eq fun _ => reader_bind_of_ok (peekValue_cons hb)

theorem delimits_drop {f : Unit → Reader α} (b : UInt8) (h : Delimits (f ()) bs) :
    Delimits (drop >>= f) (b :: bs) :=
  h.of_eq fun _ => reader_bind_of_ok (drop_cons b _)

end Reader

section Texts

variable {part : Reader Bytes} {bs bs' : Bytes}

theorem delimits_refused_part {fault : Fault} (h : ∀ rest, part (bs' ++ rest) = .error fault) :
    Delimits (thenQuoted part) bs' := by
  refine ⟨.error fault, fun rest _ => ?_⟩
  change (part (bs' ++ rest) >>= _) = _
  rw [h]
  rfl

theorem delimits_part (outcome : Except Fault Bytes)
    (h : ∀ rest, part (bs' ++ rest) = outcome.map fun out => (out, bs ++ rest))
    (hbs : Delimits quotedBytes bs) : Delimits (thenQuoted part) bs' := by
  cases outcome with
  | error fault => exact delimits_refused_part h
  | ok out =>
    have hmore : Delimits ((quotedBytes : Reader Bytes) >>= fun more => pure (out ++ more)) bs :=
      hbs.bind fun more => delimits_pure _
    exact hmore.of_eq fun rest => reader_bind_of_ok (h rest)

theorem hexNumber_append {a b c d : UInt8}
    (h : ∀ x ∈ [a, b, c, d], (Hexadecimal.value? x).isSome) :
    ∃ n, ∀ rest, hexNumber (a :: b :: c :: d :: rest) = .ok (n, rest) := by
  simp only [List.forall_mem_cons] at h
  obtain ⟨ha, hb, hc, hd, _⟩ := h
  obtain ⟨i, hi⟩ := Option.isSome_iff_exists.1 ha
  obtain ⟨j, hj⟩ := Option.isSome_iff_exists.1 hb
  obtain ⟨k, hk⟩ := Option.isSome_iff_exists.1 hc
  obtain ⟨l, hl⟩ := Option.isSome_iff_exists.1 hd
  refine ⟨[i, j, k, l].foldl (fun n d => n * 16 + d) 0, fun rest => ?_⟩
  simp [hexNumber, hi, hj, hk, hl]

theorem escape_short {b : UInt8} (h : (shortEscape? b).isSome) :
    b ≠ 0x75 ∧ ∃ byte, ∀ rest, escape (b :: rest) = .ok ([byte], rest) := by
  obtain ⟨byte, hbyte⟩ := Option.isSome_iff_exists.1 h
  refine ⟨?_, byte, fun rest => ?_⟩
  · rintro rfl
    exact absurd h (by decide)
  · simp only [escape, hbyte]

theorem escape_number (bs : Bytes) : escape (0x75 :: bs) = numberedChar bs := rfl

theorem lowHalf_refused {b : UInt8} (h : b ≠ 0x5C) (high : Nat) (bs : Bytes) :
    lowHalf high (b :: bs) = .error .malformed := by
  unfold lowHalf
  split
  · next eq => cases eq
  · next eq => exact absurd (List.cons.inj eq).1 h
  · next eq => exact absurd (List.cons.inj eq).1 h
  · rfl

theorem lowHalf_refused_short {b : UInt8} (h : b ≠ 0x75) (high : Nat) (bs : Bytes) :
    lowHalf high (0x5C :: b :: bs) = .error .malformed := by
  unfold lowHalf
  split
  · next eq => cases eq
  · next eq => exact absurd (List.cons.inj (List.cons.inj eq).2).1 h
  · next eq => cases eq
  · rfl

/-- A text is read up to its closing quote, also when its first part is the second half of a
character that is written as two numbers. -/
theorem Quoted.delimits_halves (h : Quoted bs) :
    Delimits quotedBytes bs ∧ ∀ high, Delimits (thenQuoted (lowHalf high)) bs := by
  induction h with
  | close =>
    refine ⟨⟨.ok [], fun rest _ => ?_⟩, fun high => delimits_refused_part fun rest => rfl⟩
    rw [List.singleton_append, quotedBytes, if_pos rfl]
    rfl
  | @plain b bs hb _ ih =>
    refine ⟨?_, fun high => delimits_refused_part fun rest => lowHalf_refused hb.2.1 high _⟩
    exact (ih.1.map (g := (b :: ·))).of_eq fun rest => quotedBytes_plain hb _
  | @short b bs hshort _ ih =>
    obtain ⟨hb, byte, hbyte⟩ := escape_short hshort
    refine ⟨?_, fun high => delimits_refused_part fun rest => lowHalf_refused_short hb high _⟩
    have hpart : Delimits (thenQuoted escape) (b :: bs) :=
      delimits_part (.ok [byte]) (fun rest => hbyte _) ih.1
    exact hpart.of_eq fun rest => quotedBytes_backslash _
  | @numbered a b c d bs hhex _ ih =>
    obtain ⟨n, hn⟩ := hexNumber_append hhex
    constructor
    · have hpart : Delimits (thenQuoted escape) (0x75 :: a :: b :: c :: d :: bs) := by
        by_cases hhigh : 0xD800 ≤ n ∧ n ≤ 0xDBFF
        · refine (ih.2 n).of_eq fun rest => ?_
          have hescape : escape (0x75 :: a :: b :: c :: d :: (bs ++ rest)) =
              lowHalf n (bs ++ rest) := by
            rw [escape_number, numberedChar, hn]
            simp only
            rw [if_neg (by omega), if_pos hhigh]
          change (escape _ >>= _) = (lowHalf n (bs ++ rest) >>= _)
          rw [← hescape]
          rfl
        · refine delimits_part ((numberedChar [a, b, c, d]).map (·.1)) (fun rest => ?_) ih.1
          simp only [List.cons_append, escape_number, numberedChar, hn, if_neg hhigh]
          split <;> rfl
      exact hpart.of_eq fun rest => quotedBytes_backslash _
    · intro high
      refine delimits_part ((lowHalf high [0x5C, 0x75, a, b, c, d]).map (·.1)) (fun rest => ?_) ih.1
      simp only [List.cons_append, lowHalf, hn]
      split <;> simp only [Except.map]

theorem quotedText_eq : quotedText = (do
    let out ← quotedBytes
    match Text.ofUtf8? out with
    | some s => return s
    | none => throw .malformed : Reader String) := by
  funext bs
  change _ = (quotedBytes bs >>= _)
  unfold quotedText
  cases quotedBytes bs with
  | error fault => rfl
  | ok p =>
    change _ = (match Text.ofUtf8? p.1 with
      | some s => pure s
      | none => throw .malformed : Reader String) p.2
    dsimp only
    cases Text.ofUtf8? p.1 <;> rfl

theorem Quoted.delimits (h : Quoted bs) : Delimits quotedText bs := by
  rw [quotedText_eq]
  refine h.delimits_halves.1.bind fun out => ?_
  split
  · exact delimits_pure _
  · exact delimits_throw _ _

end Texts

section Values

variable {bs : Bytes}

theorem delimits_number (negative : Bool) (h : IsNumeral bs) : Delimits (number negative) bs := by
  obtain ⟨n, hn⟩ := numeral_append h
  have hnumeral : Delimits numeral bs :=
    ⟨.ok n, fun rest hrest => hn rest hrest.endsNumeral⟩
  refine hnumeral.bind fun n => ?_
  split
  · exact delimits_throw _ _
  · exact delimits_pure _

/-- A digit is no blank and starts no value but a number. -/
theorem digit_apart {d : UInt8} (h : isDigit d = true) : isBlank d = false ∧
    ∀ b ∈ [0x22, 0x2D, 0x5B, 0x5D, 0x66, 0x6E, 0x74, 0x7B], d ≠ b := by
  have hnone : [0x22, 0x2D, 0x5B, 0x5D, 0x66, 0x6E, 0x74, 0x7B].all (!isDigit ·) = true := by decide
  constructor
  · refine Bool.eq_false_iff.2 fun hblank => ?_
    rcases isBlank_iff.1 hblank with rfl | rfl | rfl | rfl <;> exact absurd h (by decide)
  · rintro b hb rfl
    have hd := List.all_eq_true.1 hnone d hb
    rw [h] at hd
    cases hd

/-- Whatever value is refused, it is refused for itself. -/
theorem delimits_refuse {α : Type} (h : IsValue bs) : Delimits (refuse : Reader α) bs := by
  have hunsuitable (bs : Bytes) : Delimits (throw .unsuitable : Reader α) bs := delimits_throw _ bs
  cases h with
  | wordNull => exact ⟨.error .unsuitable, fun rest _ => rfl⟩
  | wordTrue => exact ⟨.error .unsuitable, fun rest _ => rfl⟩
  | wordFalse => exact ⟨.error .unsuitable, fun rest _ => rfl⟩
  | number hn =>
    obtain ⟨d, ds, rfl, hd⟩ := hn.starts
    obtain ⟨hblank, hapart⟩ := digit_apart hd
    refine delimits_peekValue hblank ?_
    rw [if_neg (hapart _ (by decide)), if_neg (hapart _ (by decide)), if_neg (hapart _ (by decide)),
      if_neg (hapart _ (by decide)), if_pos hd]
    exact (delimits_number _ hn).bind fun _ => hunsuitable _
  | negative hn =>
    refine delimits_peekValue rfl (delimits_drop _ ?_)
    exact (delimits_number _ hn).bind fun _ => hunsuitable _
  | text ht =>
    obtain ⟨hq⟩ := ht
    exact delimits_peekValue rfl (delimits_drop _ (hq.delimits.bind fun _ => hunsuitable _))
  | list _ hl =>
    obtain ⟨_⟩ := hl
    exact ⟨.error .unsuitable, fun rest _ => rfl⟩
  | object _ _ ho =>
    obtain ⟨_⟩ := ho
    exact ⟨.error .unsuitable, fun rest _ => rfl⟩

/-- What the first byte of a value tells of it. -/
structure FirstByte (b : UInt8) (tail : Bytes) : Prop where
  notBlank : isBlank b = false
  notEnd : b ≠ 0x5D
  text : b = 0x22 → IsText (b :: tail)
  negative : b = 0x2D → IsNumeral tail
  number : isDigit b = true → IsNumeral (b :: tail)

theorem IsValue.first (h : IsValue bs) : ∃ b tail, bs = b :: tail ∧ FirstByte b tail := by
  have hother {b : UInt8} (tail : Bytes) (hb : isBlank b = false ∧ b ≠ 0x5D ∧ b ≠ 0x22 ∧ b ≠ 0x2D ∧
      isDigit b = false) : FirstByte b tail := by
    obtain ⟨hblank, hend, htext, hminus, hdigit⟩ := hb
    exact ⟨hblank, hend, fun h => absurd h htext, fun h => absurd h hminus,
      fun h => absurd (h.symm.trans hdigit) (by decide)⟩
  cases h with
  | wordNull => exact ⟨_, _, rfl, hother _ (by decide)⟩
  | wordTrue => exact ⟨_, _, rfl, hother _ (by decide)⟩
  | wordFalse => exact ⟨_, _, rfl, hother _ (by decide)⟩
  | number hn =>
    obtain ⟨d, ds, rfl, hd⟩ := hn.starts
    obtain ⟨hblank, hapart⟩ := digit_apart hd
    exact ⟨d, ds, rfl, hblank, hapart _ (by decide), fun h => absurd h (hapart _ (by decide)),
      fun h => absurd h (hapart _ (by decide)), fun _ => hn⟩
  | negative hn =>
    exact ⟨_, _, rfl, by decide, by decide, fun h => absurd h (by decide), fun _ => hn,
      fun h => absurd h (by decide)⟩
  | text ht =>
    obtain ⟨hq⟩ := ht
    exact ⟨_, _, rfl, by decide, by decide, fun _ => ⟨hq⟩, fun h => absurd h (by decide),
      fun h => absurd h (by decide)⟩
  | list _ hl =>
    obtain ⟨_⟩ := hl
    exact ⟨_, _, rfl, hother _ (by decide)⟩
  | object _ _ ho =>
    obtain ⟨_⟩ := ho
    exact ⟨_, _, rfl, hother _ (by decide)⟩

theorem delimits_text (h : IsValue bs) : Delimits text bs := by
  obtain ⟨b, tail, rfl, hfirst⟩ := h.first
  refine delimits_peekValue hfirst.notBlank ?_
  split
  · next hb =>
    obtain ⟨hq⟩ := hfirst.text hb
    exact delimits_drop _ hq.delimits
  · exact delimits_refuse h

theorem delimits_integer (least most : Int) (h : IsValue bs) :
    Delimits (integer least most) bs := by
  obtain ⟨b, tail, rfl, hfirst⟩ := h.first
  refine delimits_peekValue hfirst.notBlank (Delimits.bind ?_ fun n => ?_)
  · split
    · next hb => exact delimits_drop _ (delimits_number _ (hfirst.negative hb))
    split
    · next hb => exact delimits_number _ (hfirst.number hb)
    · exact delimits_refuse h
  · cases n with
    | whole i =>
      dsimp only
      split
      · exact delimits_pure _
      · exact delimits_throw _ _
    | other => exact delimits_throw _ _

end Values

end Outline.Json
