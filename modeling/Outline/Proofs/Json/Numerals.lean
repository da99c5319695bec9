import Outline.Json.Number
import Outline.Text.Decimal

/-!
Numbers as JSON writes them, and how far a reader of numbers goes.

A number goes on as long as it can. So it is read to its end whenever neither a digit nor a point
nor the mark of an exponent follows.
-/
namespace Outline.Json
set_option autoImplicit false

/-- At least one digit. -/
structure IsDigits (ds : Bytes) : Prop where
  nonempty : ds ≠ []
  digits : ∀ b ∈ ds, isDigit b = true

/-- The digits before a point: no zero in front of others. -/
structure IsWhole (ds : Bytes) : Prop extends IsDigits ds where
  noZero : ds.head? = some 0x30 → ds = [0x30]

/-- A point with digits after it, or nothing. -/
inductive IsFraction : Bytes → Prop
  | absent : IsFraction []
  | point {ds : Bytes} : IsDigits ds → IsFraction (0x2E :: ds)

/-- The mark of an exponent with its sign and digits, or nothing. -/
inductive IsExponent : Bytes → Prop
  | absent : IsExponent []
  | mark {e : UInt8} {sign ds : Bytes} : e = 0x65 ∨ e = 0x45 →
      sign = [] ∨ sign = [0x2B] ∨ sign = [0x2D] → IsDigits ds → IsExponent (e :: (sign ++ ds))

/-- A number without a sign. -/
inductive IsNumeral : Bytes → Prop
  | parts {whole fraction exponent : Bytes} : IsWhole whole → IsFraction fraction →
      IsExponent exponent → IsNumeral (whole ++ (fraction ++ exponent))

/-- Whether a number ends before what follows. -/
def EndsNumeral (rest : Bytes) : Prop :=
  ∀ b ∈ rest.head?, isDigit b = false ∧ b ≠ 0x2E ∧ b ≠ 0x65 ∧ b ≠ 0x45

section Reading

variable {ds rest fraction exponent bs : Bytes}

theorem cut_digits (hds : ∀ b ∈ ds, isDigit b = true)
    (hrest : ∀ b ∈ rest.head?, isDigit b = false) :
    (ds ++ rest).takeWhile isDigit = ds ∧ (ds ++ rest).dropWhile isDigit = rest := by
  rw [List.takeWhile_append_of_pos hds, List.dropWhile_append_of_pos hds]
  cases rest with
  | nil => exact ⟨List.append_nil ds, rfl⟩
  | cons b tail => simp [hrest b rfl]

theorem IsDigits.first (hds : IsDigits ds) {b : UInt8} (h : ds ++ rest = b :: bs) :
    isDigit b = true := by
  cases ds with
  | nil => exact absurd rfl hds.nonempty
  | cons d ds =>
    cases h
    exact hds.digits _ List.mem_cons_self

theorem someDigits_append (hds : IsDigits ds) (hrest : ∀ b ∈ rest.head?, isDigit b = false) :
    someDigits (ds ++ rest) = .ok (ds, rest) := by
  obtain ⟨htake, hdrop⟩ := cut_digits hds.digits hrest
  rw [someDigits, htake, hdrop, if_neg (by simpa using hds.nonempty)]

theorem wholeDigits_append (hds : IsWhole ds) (hrest : ∀ b ∈ rest.head?, isDigit b = false) :
    wholeDigits (ds ++ rest) = .ok (ds, rest) := by
  cases ds with
  | nil => exact absurd rfl hds.nonempty
  | cons d ds =>
    obtain ⟨hd, htail⟩ := List.forall_mem_cons.1 hds.digits
    rw [List.cons_append, wholeDigits]
    split
    · next hzero =>
      subst hzero
      obtain rfl : ds = [] := List.tail_eq_of_cons_eq (hds.noZero rfl)
      cases rest with
      | nil => rfl
      | cons b rest => simp [hrest b rfl]
    · obtain ⟨htake, hdrop⟩ := cut_digits htail hrest
      rw [htake, hdrop]

theorem fractionDigits_of_ends (hrest : ∀ b ∈ rest.head?, b ≠ 0x2E) :
    fractionDigits rest = .ok (none, rest) := by
  rw [fractionDigits]
  rintro bs rfl
  exact hrest 0x2E rfl rfl

theorem exponentDigits_of_ends (hrest : ∀ b ∈ rest.head?, b ≠ 0x65 ∧ b ≠ 0x45) :
    exponentDigits rest = .ok (none, rest) := by
  cases rest with
  | nil => rfl
  | cons b rest =>
    unfold exponentDigits
    exact if_neg (not_or.2 (hrest b rfl))

/-- What a fraction is read as does not depend on what follows it. -/
theorem fractionDigits_append (h : IsFraction fraction) :
    ∃ found, ∀ rest, (∀ b ∈ rest.head?, isDigit b = false ∧ b ≠ 0x2E) →
      fractionDigits (fraction ++ rest) = .ok (found, rest) := by
  cases h with
  | absent => exact ⟨none, fun rest hrest => fractionDigits_of_ends fun b hb => (hrest b hb).2⟩
  | @point ds hds =>
    refine ⟨some ds, fun rest hrest => ?_⟩
    rw [List.cons_append, fractionDigits, someDigits_append hds fun b hb => (hrest b hb).1]
    rfl

/-- What an exponent is read as does not depend on what follows it. -/
theorem exponentDigits_append (h : IsExponent exponent) :
    ∃ found, ∀ rest, EndsNumeral rest →
      exponentDigits (exponent ++ rest) = .ok (found, rest) := by
  cases h with
  | absent => exact ⟨none, fun rest hrest => exponentDigits_of_ends fun b hb => (hrest b hb).2.2⟩
  | @mark e sign ds he hsign hds =>
    have hread (rest : Bytes) (hrest : EndsNumeral rest) :=
      someDigits_append hds fun b hb => (hrest b hb).1
    rcases hsign with rfl | rfl | rfl
    · refine ⟨some (false, ds), fun rest hrest => ?_⟩
      rw [List.nil_append, List.cons_append]
      simp only [exponentDigits, if_pos he]
      -- The reader asks for a sign first, and a digit is none.
      split
      · next eq => exact absurd (hds.first eq) (by decide)
      · next eq => exact absurd (hds.first eq) (by decide)
      · rw [hread rest hrest]
        rfl
    · refine ⟨some (false, ds), fun rest hrest => ?_⟩
      rw [List.singleton_append, List.cons_append, List.cons_append]
      simp only [exponentDigits, if_pos he]
      rw [hread rest hrest]
      rfl
    · refine ⟨some (true, ds), fun rest hrest => ?_⟩
      rw [List.singleton_append, List.cons_append, List.cons_append]
      simp only [exponentDigits, if_pos he]
      rw [hread rest hrest]
      rfl

theorem IsExponent.head (h : IsExponent exponent) (hrest : EndsNumeral rest) :
    ∀ b ∈ (exponent ++ rest).head?, isDigit b = false ∧ b ≠ 0x2E := by
  cases h with
  | absent => exact fun b hb => ⟨(hrest b hb).1, (hrest b hb).2.1⟩
  | mark he =>
    rintro b ⟨⟩
    rcases he with rfl | rfl <;> decide

theorem IsFraction.head (h : IsFraction fraction)
    (hrest : ∀ b ∈ rest.head?, isDigit b = false) :
    ∀ b ∈ (fraction ++ rest).head?, isDigit b = false := by
  cases h with
  | absent => exact hrest
  | point =>
    rintro b ⟨⟩
    decide

theorem numeral_of_parts {whole bs₁ bs₂ : Bytes} {found : Option Bytes}
    {power : Option (Bool × Bytes)} (hwhole : wholeDigits bs = .ok (whole, bs₁))
    (hfound : fractionDigits bs₁ = .ok (found, bs₂))
    (hpower : exponentDigits bs₂ = .ok (power, rest)) :
    numeral bs = .ok (⟨whole, found, power⟩, rest) := by
  unfold numeral
  rw [hwhole]
  change (fractionDigits bs₁ >>= _) = _
  rw [hfound]
  change (exponentDigits bs₂ >>= _) = _
  rw [hpower]
  rfl

/-- A number is read to its end, and what it is read as does not depend on what follows. -/
theorem numeral_append (h : IsNumeral bs) :
    ∃ n, ∀ rest, EndsNumeral rest → numeral (bs ++ rest) = .ok (n, rest) := by
  obtain @⟨whole, fraction, exponent, hwhole, hfraction, hexponent⟩ := h
  obtain ⟨found, hfound⟩ := fractionDigits_append hfraction
  obtain ⟨power, hpower⟩ := exponentDigits_append hexponent
  refine ⟨⟨whole, found, power⟩, fun rest hrest => ?_⟩
  have hexp := hexponent.head hrest
  have hfrac := hfraction.head fun b hb => (hexp b hb).1
  rw [List.append_assoc, List.append_assoc]
  exact numeral_of_parts (wholeDigits_append hwhole hfrac) (hfound _ hexp) (hpower rest hrest)

end Reading

section Digits

/-- The byte of a decimal digit. -/
def digitByte (d : Nat) : UInt8 := (Decimal.digitChar d).val.toUInt8

theorem digitByte_spec {d : Nat} (h : d < 10) :
    isDigit (digitByte d) = true ∧ digitValue (digitByte d) = d ∧
      (digitByte d = 0x30 ↔ d = 0) ∧ isBlank (digitByte d) = false ∧ digitByte d ≠ 0x2D ∧
      digitByte d ≠ 0x5D := by
  have hall : ∀ k : Fin 10, isDigit (digitByte k.val) = true ∧
      digitValue (digitByte k.val) = k.val ∧
      (digitByte k.val = 0x30 ↔ k.val = 0) ∧ isBlank (digitByte k.val) = false ∧
      digitByte k.val ≠ 0x2D ∧ digitByte k.val ≠ 0x5D := by decide
  exact hall ⟨d, h⟩

theorem digits_lt (n : Nat) : ∀ d ∈ Decimal.digits n, d < 10 := by
  fun_induction Decimal.digits n with
  | case1 n h => simpa using h
  | case2 n h ih =>
    intro d hd
    rcases List.mem_append.1 hd with hd | hd
    · exact ih d hd
    · rw [List.mem_singleton.1 hd]
      omega

/-- Digits do not start with a zero, but for the number zero, which is one digit. -/
theorem digits_head (n : Nat) :
    ∃ d ds, Decimal.digits n = d :: ds ∧ (d = 0 → ds = []) := by
  fun_induction Decimal.digits n with
  | case1 n h => exact ⟨n, [], rfl, fun _ => rfl⟩
  | case2 n h ih =>
    obtain ⟨d, ds, hds, hzero⟩ := ih
    refine ⟨d, ds ++ [n % 10], by rw [hds]; rfl, ?_⟩
    intro hd
    have hv := Decimal.value_digits (n / 10)
    rw [hds, hd, hzero hd] at hv
    simp [Decimal.value] at hv
    omega

theorem digitsValue_digits (ds : List Nat) (h : ∀ d ∈ ds, d < 10) :
    digitsValue (ds.map digitByte) = Decimal.value ds := by
  have hfold : ∀ (ds : List Nat) (n : Nat), (∀ d ∈ ds, d < 10) →
      (ds.map digitByte).foldl (fun n b => n * 10 + digitValue b) n =
        ds.foldl (fun n d => n * 10 + d) n := by
    intro ds
    induction ds with
    | nil => intro n _; rfl
    | cons d ds ih =>
      intro n hds
      rw [List.map_cons, List.foldl_cons, List.foldl_cons,
        (digitByte_spec (hds d List.mem_cons_self)).2.1]
      exact ih _ fun x hx => hds x (List.mem_cons_of_mem _ hx)
  exact hfold ds 0 h

theorem isWhole_digits (n : Nat) : IsWhole ((Decimal.digits n).map digitByte) := by
  obtain ⟨d, ds, hds, hzero⟩ := digits_head n
  have hlt := digits_lt n
  rw [hds] at hlt ⊢
  refine ⟨⟨by simp, ?_⟩, fun hfirst => ?_⟩
  · intro b hb
    obtain ⟨k, hk, rfl⟩ := List.mem_map.1 hb
    exact (digitByte_spec (hlt k hk)).1
  · have hd : d = 0 := (digitByte_spec (hlt d List.mem_cons_self)).2.2.1.1 (Option.some.inj hfirst)
    rw [hzero hd, hd]
    rfl

theorem numeral_digits (n : Nat) {rest : Bytes} (hrest : EndsNumeral rest) :
    numeral ((Decimal.digits n).map digitByte ++ rest) =
      .ok (⟨(Decimal.digits n).map digitByte, none, none⟩, rest) :=
  numeral_of_parts (wholeDigits_append (isWhole_digits n) fun b hb => (hrest b hb).1)
    (fractionDigits_of_ends fun b hb => (hrest b hb).2.1)
    (exponentDigits_of_ends fun b hb => (hrest b hb).2.2)

end Digits

end Outline.Json
