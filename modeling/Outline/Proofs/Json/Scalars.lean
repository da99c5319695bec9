import Outline.Json.Container
import Outline.Json.Writer
import Outline.Proofs.Json.Numerals

/-!
Words, numbers and texts are read back from what is written for them.

A reader takes some bytes for a value when it does so whatever follows, as long as that may follow a
value inside a list or an object.
-/
namespace Outline.Json
set_option autoImplicit false

section Reader

variable {α β : Type} {r : Reader α} {f : α → Reader β} {a : α} {b : UInt8} {bs rest : Bytes}

theorem reader_bind_of_ok (h : r bs = .ok (a, rest)) : (r >>= f) bs = f a rest := by
  change (r bs >>= fun p => f p.1 p.2) = _
  rw [h]
  rfl

theorem peek_cons (h : isBlank b = false) : peek (b :: bs) = .ok (some b, b :: bs) := by
  simp [peek, h]

theorem peekValue_cons (h : isBlank b = false) : peekValue (b :: bs) = .ok (b, b :: bs) := by
  unfold peekValue
  rw [reader_bind_of_ok (peek_cons h)]
  rfl

theorem drop_cons (b : UInt8) (rest : Bytes) : drop (b :: rest) = .ok ((), rest) := rfl

/-- What may follow a value or a name: nothing, a blank, a comma, a colon, or the end of a list or
an object. -/
def Follows (rest : Bytes) : Prop :=
  ∀ b ∈ rest.head?, isBlank b = true ∨ b = 0x2C ∨ b = 0x3A ∨ b = 0x5D ∨ b = 0x7D

theorem isBlank_iff : isBlank b = true ↔ b = 0x20 ∨ b = 0x0A ∨ b = 0x0D ∨ b = 0x09 := by
  simp only [isBlank, Bool.or_eq_true, beq_iff_eq, or_assoc]

/-- No digit, point or exponent comes first in what may follow a value. -/
theorem Follows.endsNumeral (h : Follows rest) : EndsNumeral rest := by
  intro b hb
  rcases h b hb with hblank | rfl | rfl | rfl | rfl
  · rcases isBlank_iff.1 hblank with rfl | rfl | rfl | rfl <;> decide
  all_goals decide

/-- A reader takes some bytes for a value, whatever follows them. -/
def Takes (r : Reader α) (bs : Bytes) (a : α) : Prop :=
  ∀ rest, Follows rest → r (bs ++ rest) = .ok (a, rest)

theorem Takes.alone (h : Takes r bs a) : r bs = .ok (a, []) := by
  have halone := h [] nofun
  rwa [List.append_nil] at halone

theorem Takes.bind_pure {g : α → β} (h : Takes r bs a) :
    Takes (r >>= fun a => pure (g a)) bs (g a) := by
  intro rest hrest
  rw [reader_bind_of_ok (h rest hrest)]
  rfl

theorem Takes.map {g : α → β} (h : Takes r bs a) : Takes (g <$> r) bs (g a) := by
  intro rest hrest
  change (r (bs ++ rest) >>= fun p => pure (g p.1, p.2)) = _
  rw [h rest hrest]
  rfl

end Reader

section Numbers

theorem writeInt_ofNat (n : Nat) : writeInt n = (Decimal.digits n).map digitByte := by
  change ((Decimal.digits n).map Decimal.digitChar).map (fun c => c.val.toUInt8) = _
  rw [List.map_map]
  rfl

theorem writeInt_negSucc (n : Nat) :
    writeInt (.negSucc n) = 0x2D :: (Decimal.digits (n + 1)).map digitByte := by
  change (('-' :: (Decimal.digits (n + 1)).map Decimal.digitChar).map fun c => c.val.toUInt8) = _
  rw [List.map_cons, List.map_map]
  rfl

/-- The digits of a number that fits into 64 bits make a whole number. -/
theorem whole?_digits {n : Nat} (h : n ≤ Word.maxUnsigned64) :
    (⟨(Decimal.digits n).map digitByte, none, none⟩ : Numeral).whole? = some n := by
  have hv : digitsValue ((Decimal.digits n).map digitByte) = n := by
    rw [digitsValue_digits _ (digits_lt n), Decimal.value_digits]
  simp [Numeral.whole?, hv, h]

theorem number_digits (negative : Bool) {n : Nat} {i : Int}
    (hi : (⟨(Decimal.digits n).map digitByte, none, none⟩ : Numeral).value negative = .whole i) :
    Takes (number negative) ((Decimal.digits n).map digitByte) (.whole i) := by
  intro rest hrest
  unfold number
  rw [reader_bind_of_ok (numeral_digits n hrest.endsNumeral), hi, if_neg (by simp)]
  rfl

/-- A whole number between the bounds of a reader is read back. -/
theorem takes_integer {least most i : Int} (hleast : Word.min64 ≤ least)
    (hmost : most ≤ Word.maxUnsigned64) (hle : least ≤ i) (hge : i ≤ most) :
    Takes (integer least most) (writeInt i) i := by
  intro rest hrest
  have hend :
      (if least ≤ i ∧ i ≤ most then return i else throw Fault.unsuitable : Reader Int) rest =
      .ok (i, rest) := by
    rw [if_pos ⟨hle, hge⟩]
    rfl
  cases i with
  | ofNat n =>
    have hn : n ≤ Word.maxUnsigned64 := by
      have hge' : (n : Int) ≤ most := hge
      omega
    obtain ⟨d, ds, hds, _⟩ := digits_head n
    have hd := digitByte_spec (digits_lt n d (by rw [hds]; exact List.mem_cons_self))
    have hval : (⟨(Decimal.digits n).map digitByte, none, none⟩ : Numeral).value false =
        .whole (.ofNat n) := by
      simp [Numeral.value, whole?_digits hn]
    have hnum := number_digits false hval rest hrest
    rw [show writeInt (.ofNat n) = _ from writeInt_ofNat n]
    unfold integer
    rw [hds, List.map_cons, List.cons_append] at hnum ⊢
    rw [reader_bind_of_ok (peekValue_cons hd.2.2.2.1), if_neg hd.2.2.2.2.1, if_pos hd.1,
      reader_bind_of_ok hnum]
    exact hend
  | negSucc n =>
    have hn : n + 1 ≤ Word.maxUnsigned64 := by
      simp only [Word.min64] at hleast
      simp only [Word.maxUnsigned64]
      omega
    have hfits : Word.fits64 (-((n + 1 : Nat) : Int)) = true := by
      rw [Word.fits64, Bool.and_eq_true, decide_eq_true_iff, decide_eq_true_iff, Word.max64]
      omega
    have hval : (⟨(Decimal.digits (n + 1)).map digitByte, none, none⟩ : Numeral).value true =
        .whole (.negSucc n) := by
      simp only [Numeral.value, whole?_digits hn]
      rw [if_neg (by simp), if_pos ⟨Nat.succ_pos n, hfits⟩]
      rfl
    have hnum := number_digits true hval rest hrest
    rw [writeInt_negSucc, List.cons_append]
    unfold integer
    rw [reader_bind_of_ok (peekValue_cons (by decide)), if_pos rfl]
    have hdrop : (drop *> number true) (0x2D :: ((Decimal.digits (n + 1)).map digitByte ++ rest)) =
        .ok (.whole (.negSucc n), rest) := hnum
    rw [reader_bind_of_ok hdrop]
    exact hend

theorem takes_truth (b : Bool) : Takes truth (writeTruth b) b := by
  intro rest _
  cases b with
  | true =>
    have hw : writeTruth true = [0x74, 0x72, 0x75, 0x65] := by decide
    rw [hw]
    rfl
  | false =>
    have hw : writeTruth false = [0x66, 0x61, 0x6C, 0x73, 0x65] := by decide
    rw [hw]
    rfl

end Numbers

section Texts

/-- A part of a text, and the rest of it. -/
def thenQuoted (part : Reader Bytes) : Reader Bytes := do
  let out ← part
  let more ← quotedBytes
  return out ++ more

theorem quotedBytes_backslash (bs : Bytes) : quotedBytes (0x5C :: bs) = thenQuoted escape bs := by
  rw [quotedBytes, if_neg (by decide), if_pos rfl]
  split
  · next hf =>
    change _ = (escape bs >>= _)
    rw [hf]
    rfl
  · next out rest hf =>
    unfold thenQuoted
    rw [reader_bind_of_ok hf]
    change _ = (quotedBytes rest >>= _)
    cases quotedBytes rest <;> rfl

theorem quotedBytes_escape {b : UInt8} {bs rest : Bytes} (h : escape bs = .ok ([b], rest)) :
    quotedBytes (0x5C :: bs) = (quotedBytes rest).map fun p => (b :: p.1, p.2) := by
  rw [quotedBytes_backslash, thenQuoted, reader_bind_of_ok h]
  change (quotedBytes rest >>= _) = _
  cases quotedBytes rest <;> rfl

/-- Whether a byte stands for itself between quotes. -/
def IsPlain (b : UInt8) : Prop := b ≠ 0x22 ∧ b ≠ 0x5C ∧ ¬ b < 0x20

instance (b : UInt8) : Decidable (IsPlain b) :=
  inferInstanceAs (Decidable (b ≠ 0x22 ∧ b ≠ 0x5C ∧ ¬ b < 0x20))

/-- Whether a text needs no escapes. -/
def IsPlainText (s : String) : Prop := ∀ b ∈ Text.utf8 s, IsPlain b

instance (s : String) : Decidable (IsPlainText s) := List.decidableBAll IsPlain (Text.utf8 s)

theorem quotedBytes_plain {b : UInt8} (h : IsPlain b) (rest : Bytes) :
    quotedBytes (b :: rest) = (quotedBytes rest).map fun p => (b :: p.1, p.2) := by
  obtain ⟨hquote, hback, hlow⟩ := h
  rw [quotedBytes, if_neg hquote, if_neg hback, if_neg hlow]
  cases quotedBytes rest <;> rfl

theorem escapeByte_plain {b : UInt8} (h : IsPlain b) : escapeByte b = [b] := by
  obtain ⟨hquote, hback, hlow⟩ := h
  have hne (low : UInt8) (hlow' : low < 0x20) : b ≠ low := by
    rintro rfl
    exact hlow hlow'
  unfold escapeByte
  rw [if_neg hquote, if_neg hback, if_neg (hne 0x08 (by decide)), if_neg (hne 0x09 (by decide)),
    if_neg (hne 0x0A (by decide)), if_neg (hne 0x0C (by decide)), if_neg (hne 0x0D (by decide)),
    if_neg hlow]

/-- The bytes below the space that have no short escape are escaped by their number. -/
theorem escape_numbered {b : UInt8} (h : b < 0x20) (rest : Bytes) :
    escape (0x75 :: 0x30 :: 0x30 :: hexByte (b.toNat / 16) :: hexByte (b.toNat % 16) :: rest) =
      .ok ([b], rest) := by
  have hall : ∀ k : Fin 32,
      ([0x30, 0x30, hexByte (k.val / 16), hexByte (k.val % 16)].mapM Hexadecimal.value?) =
        some [0, 0, k.val / 16, k.val % 16] ∧
      String.utf8EncodeChar (Char.ofNat k.val) = [UInt8.ofNat k.val] := by decide
  obtain ⟨hdigits, hchar⟩ := hall ⟨b.toNat, h⟩
  have hnum : hexNumber (0x30 :: 0x30 :: hexByte (b.toNat / 16) :: hexByte (b.toNat % 16) :: rest) =
      .ok (b.toNat, rest) := by
    unfold hexNumber
    simp only [hdigits, List.foldl_cons, List.foldl_nil]
    congr 2
    omega
  have hlt : b.toNat < 32 := h
  have hshort : shortEscape? 0x75 = none := by decide
  unfold escape
  simp only [hshort]
  rw [if_pos trivial, numberedChar, hnum]
  simp only
  rw [if_neg (by omega), if_neg (by omega), hchar, UInt8.ofNat_toNat]

theorem quotedBytes_escapeByte (b : UInt8) (rest : Bytes) :
    quotedBytes (escapeByte b ++ rest) = (quotedBytes rest).map fun p => (b :: p.1, p.2) := by
  unfold escapeByte
  split
  · next h => subst h; exact quotedBytes_escape rfl
  split
  · next h => subst h; exact quotedBytes_escape rfl
  split
  · next h => subst h; exact quotedBytes_escape rfl
  split
  · next h => subst h; exact quotedBytes_escape rfl
  split
  · next h => subst h; exact quotedBytes_escape rfl
  split
  · next h => subst h; exact quotedBytes_escape rfl
  split
  · next h => subst h; exact quotedBytes_escape rfl
  split
  · next h => exact quotedBytes_escape (escape_numbered h rest)
  · next hquote hback _ _ _ _ _ hlow => exact quotedBytes_plain ⟨hquote, hback, hlow⟩ rest

/-- A text is read back up to its closing quote, whatever follows. -/
theorem quotedText_write (s : String) (rest : Bytes) :
    quotedText ((Text.utf8 s).flatMap escapeByte ++ 0x22 :: rest) = .ok (s, rest) := by
  have hbytes : ∀ bs : Bytes, quotedBytes (bs.flatMap escapeByte ++ 0x22 :: rest) =
      .ok (bs, rest) := by
    intro bs
    induction bs with
    | nil => rw [List.flatMap_nil, List.nil_append, quotedBytes, if_pos rfl]
    | cons b bs ih =>
      rw [List.flatMap_cons, List.append_assoc, quotedBytes_escapeByte, ih]
      rfl
  rw [quotedText, hbytes]
  simp only [Text.ofUtf8?_utf8]

/-- A text that needs no escapes is written as it is, between quotes. -/
theorem writeText_plain {s : String} (h : IsPlainText s) :
    writeText s = 0x22 :: (Text.utf8 s ++ [0x22]) := by
  have hbytes (bs : Bytes) (hbs : ∀ b ∈ bs, IsPlain b) : bs.flatMap escapeByte = bs := by
    induction bs with
    | nil => rfl
    | cons b bs ih =>
      obtain ⟨hb, hbs⟩ := List.forall_mem_cons.1 hbs
      rw [List.flatMap_cons, escapeByte_plain hb, ih hbs, List.singleton_append]
  rw [writeText, hbytes _ h, List.cons_append]

theorem writeText_append (s : String) (rest : Bytes) :
    writeText s ++ rest = 0x22 :: ((Text.utf8 s).flatMap escapeByte ++ 0x22 :: rest) := by
  simp [writeText]

theorem takes_text (s : String) : Takes text (writeText s) s := by
  intro rest _
  rw [writeText_append]
  unfold text
  rw [reader_bind_of_ok (peekValue_cons (by decide)), if_pos rfl]
  exact quotedText_write s rest

theorem takes_optionalText (s : String) : Takes optionalText (writeText s) (some s) := by
  intro rest hrest
  have htext := (takes_text s).map (g := some) rest hrest
  rw [writeText_append] at htext ⊢
  unfold optionalText
  rw [reader_bind_of_ok (peek_cons (by decide))]
  exact htext

end Texts

end Outline.Json
