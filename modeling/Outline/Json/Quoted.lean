import Outline.Json.Reader
import Outline.Text.Hexadecimal

/-!
Quoted texts.

Inside quotes a backslash starts an escape, and bytes below the space are not allowed. A text that
is kept has its escapes replaced and must be UTF-8; of a text that is passed over only the shape of
its escapes counts.
-/
namespace Outline.Json
set_option autoImplicit false

/-- A number of four hexadecimal digits. The four bytes have to be there before they are looked at.
-/
def hexNumber : Bytes → Except Fault (Nat × Bytes)
  | a :: b :: c :: d :: rest =>
    match [a, b, c, d].mapM Hexadecimal.value? with
    | some digits => .ok (digits.foldl (fun n d => n * 16 + d) 0, rest)
    | none => .error .malformed
  | _ => .error .ended

theorem length_hexNumber {bs rest : Bytes} {n : Nat} (h : hexNumber bs = .ok (n, rest)) :
    rest.length < bs.length := by
  unfold hexNumber at h
  split at h
  · split at h
    · cases h; simp; omega
    · cases h
  · cases h

/-- The second half of a character written as two numbers, after the high half. -/
def lowHalf (high : Nat) : Bytes → Except Fault (Bytes × Bytes)
  | [] => .error .ended
  | 0x5C :: 0x75 :: rest =>
    match hexNumber rest with
    | .error fault => .error fault
    | .ok (low, rest) =>
      if 0xDC00 ≤ low ∧ low ≤ 0xDFFF then
        .ok (String.utf8EncodeChar
          (Char.ofNat ((high - 0xD800) * 0x400 + (low - 0xDC00) + 0x10000)), rest)
      else .error .malformed
  | [0x5C] => .error .ended
  | _ :: _ => .error .malformed

theorem length_lowHalf {high : Nat} {bs out rest : Bytes} (h : lowHalf high bs = .ok (out, rest)) :
    rest.length < bs.length := by
  unfold lowHalf at h
  split at h
  · cases h
  · split at h
    · cases h
    · next eq =>
      split at h
      · simp only [Except.ok.injEq, Prod.mk.injEq] at h
        have := length_hexNumber eq
        simp only [← h.2, List.length_cons]
        omega
      · cases h
  · cases h
  · cases h

/-- A character written by its number. Halves of a pair have to come together and in order. -/
def numberedChar (bs : Bytes) : Except Fault (Bytes × Bytes) :=
  match hexNumber bs with
  | .error fault => .error fault
  | .ok (n, rest) =>
    if 0xDC00 ≤ n ∧ n ≤ 0xDFFF then .error .malformed
    else if 0xD800 ≤ n ∧ n ≤ 0xDBFF then lowHalf n rest
    else .ok (String.utf8EncodeChar (Char.ofNat n), rest)

theorem length_numberedChar {bs out rest : Bytes} (h : numberedChar bs = .ok (out, rest)) :
    rest.length < bs.length := by
  unfold numberedChar at h
  split at h
  · cases h
  · next eq =>
    have := length_hexNumber eq
    split at h
    · cases h
    · split at h
      · have := length_lowHalf h
        omega
      · simp only [Except.ok.injEq, Prod.mk.injEq] at h
        simpa only [← h.2] using this

/-- The byte that a one-letter escape stands for. -/
def shortEscape? (b : UInt8) : Option UInt8 :=
  if b = 0x22 ∨ b = 0x5C ∨ b = 0x2F then some b
  else if b = 0x62 then some 0x08
  else if b = 0x66 then some 0x0C
  else if b = 0x6E then some 0x0A
  else if b = 0x72 then some 0x0D
  else if b = 0x74 then some 0x09
  else none

/-- What an escape stands for, after its backslash. -/
def escape : Bytes → Except Fault (Bytes × Bytes)
  | [] => .error .ended
  | b :: rest =>
    match shortEscape? b with
    | some byte => .ok ([byte], rest)
    | none => if b = 0x75 then numberedChar rest else .error .malformed

theorem length_escape {bs out rest : Bytes} (h : escape bs = .ok (out, rest)) :
    rest.length < bs.length := by
  unfold escape at h
  split at h
  · cases h
  · split at h
    · cases h; simp
    · split at h
      · have := length_numberedChar h
        simp; omega
      · cases h

/-- The bytes of a text up to its closing quote, with the escapes replaced. -/
def quotedBytes : Bytes → Except Fault (Bytes × Bytes)
  | [] => .error .ended
  | b :: bs =>
    if b = 0x22 then .ok ([], bs)
    else if b = 0x5C then
      match _h : escape bs with
      | .error fault => .error fault
      | .ok (out, rest) =>
        match quotedBytes rest with
        | .error fault => .error fault
        | .ok (more, rest) => .ok (out ++ more, rest)
    else if b < 0x20 then .error .malformed
    else
      match quotedBytes bs with
      | .error fault => .error fault
      | .ok (more, rest) => .ok (b :: more, rest)
  termination_by bs => bs.length
  decreasing_by
    · have := length_escape _h
      simp; omega
    · simp

/-- A text after its opening quote. -/
def quotedText : Reader String := fun bs =>
  match quotedBytes bs with
  | .error fault => .error fault
  | .ok (out, rest) =>
    match Text.ofUtf8? out with
    | some s => .ok (s, rest)
    | none => .error .malformed

/-- What follows an escape of a text that is passed over, after its backslash. -/
def skipEscape : Bytes → Except Fault Bytes
  | [] => .error .ended
  | b :: rest =>
    if (shortEscape? b).isSome then .ok rest
    else if b = 0x75 then (hexNumber rest).map (·.2)
    else .error .malformed

theorem length_skipEscape {bs rest : Bytes} (h : skipEscape bs = .ok rest) :
    rest.length < bs.length := by
  unfold skipEscape at h
  split at h
  · cases h
  · split at h
    · cases h; simp
    · split at h
      · next eq =>
        cases hn : hexNumber _ with
        | error fault => rw [hn] at h; cases h
        | ok found =>
          rw [hn] at h
          cases h
          have := length_hexNumber hn
          simp; omega
      · cases h

/-- What follows a text that is passed over, after its opening quote. -/
def afterQuoted : Bytes → Except Fault Bytes
  | [] => .error .ended
  | b :: bs =>
    if b = 0x22 then .ok bs
    else if b = 0x5C then
      match _h : skipEscape bs with
      | .error fault => .error fault
      | .ok rest => afterQuoted rest
    else if b < 0x20 then .error .malformed
    else afterQuoted bs
  termination_by bs => bs.length
  decreasing_by
    · have := length_skipEscape _h
      simp; omega
    · simp

/-- Passes over a text after its opening quote. -/
def skipQuoted : Reader Unit := fun bs => (afterQuoted bs).map fun rest => ((), rest)

end Outline.Json
