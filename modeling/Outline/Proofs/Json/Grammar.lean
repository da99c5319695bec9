import Outline.Proofs.Json.Scalars

/-!
Which bytes are JSON, by rules that mention no reader.

Blanks may stand before each token and after the last one. A value is a word, a number, a text, a
list or an object. The names of an object may repeat here: which ones may is for its reader to say.
-/
namespace Outline.Json
set_option autoImplicit false

/-- Blanks only. -/
def Blanks (bs : Bytes) : Prop := ∀ b ∈ bs, isBlank b = true

instance (bs : Bytes) : Decidable (Blanks bs) :=
  List.decidableBAll (fun b => isBlank b = true) bs

theorem blanks_nil : Blanks [] := nofun

/-- Tokens one after the other, with any blanks before each of them and after the last. -/
inductive Spaced : List Bytes → Bytes → Prop
  | done {blanks : Bytes} : Blanks blanks → Spaced [] blanks
  | token {blanks token rest : Bytes} {tokens : List Bytes} : Blanks blanks → Spaced tokens rest →
      Spaced (token :: tokens) (blanks ++ (token ++ rest))

/-- A text after its opening quote, with its closing one. -/
inductive Quoted : Bytes → Prop
  | close : Quoted [0x22]
  | plain {b : UInt8} {bs : Bytes} : IsPlain b → Quoted bs → Quoted (b :: bs)
  | short {b : UInt8} {bs : Bytes} : (shortEscape? b).isSome → Quoted bs → Quoted (0x5C :: b :: bs)
  | numbered {a b c d : UInt8} {bs : Bytes} :
      (∀ x ∈ [a, b, c, d], (Hexadecimal.value? x).isSome) → Quoted bs →
      Quoted (0x5C :: 0x75 :: a :: b :: c :: d :: bs)

/-- A text with its quotes. -/
inductive IsText : Bytes → Prop
  | quotes {bs : Bytes} : Quoted bs → IsText (0x22 :: bs)

/-- The tokens of groups with a comma between each two. The flag tells whether the first of them is
the first of all; else a comma comes before it, too. -/
def listed : Bool → List (List Bytes) → List Bytes
  | _, [] => []
  | true, group :: groups => group ++ listed false groups
  | false, group :: groups => [0x2C] :: (group ++ listed false groups)

/-- A list with the given values, from its opening bracket to its closing one. -/
inductive IsList (values : List Bytes) : Bytes → Prop
  | brackets {inner : Bytes} : Spaced (listed true (values.map fun v => [v])) inner →
      IsList values (0x5B :: (inner ++ [0x5D]))

/-- A member of an object as it is written: its name with the quotes, and its value. -/
structure Member where
  name : Bytes
  value : Bytes

/-- The tokens of a member. -/
def Member.tokens (m : Member) : List Bytes := [m.name, [0x3A], m.value]

/-- An object with the given members, from its opening brace to its closing one. -/
inductive IsObject (ms : List Member) : Bytes → Prop
  | braces {inner : Bytes} : Spaced (listed true (ms.map Member.tokens)) inner →
      IsObject ms (0x7B :: (inner ++ [0x7D]))

/-- A value without the blanks around it. -/
inductive IsValue : Bytes → Prop
  | wordNull : IsValue [0x6E, 0x75, 0x6C, 0x6C]
  | wordTrue : IsValue [0x74, 0x72, 0x75, 0x65]
  | wordFalse : IsValue [0x66, 0x61, 0x6C, 0x73, 0x65]
  | number {bs : Bytes} : IsNumeral bs → IsValue bs
  | negative {bs : Bytes} : IsNumeral bs → IsValue (0x2D :: bs)
  | text {bs : Bytes} : IsText bs → IsValue bs
  | list {values : List Bytes} {bs : Bytes} : (∀ v ∈ values, IsValue v) → IsList values bs →
      IsValue bs
  | object {ms : List Member} {bs : Bytes} : (∀ m ∈ ms, IsText m.name) →
      (∀ m ∈ ms, IsValue m.value) → IsObject ms bs → IsValue bs

/-- A member whose name is a text and whose value is a value. -/
structure Member.Proper (m : Member) : Prop where
  name : IsText m.name
  value : IsValue m.value

section Values

variable {bs : Bytes}

/-- A number starts with a digit. -/
theorem IsNumeral.starts (h : IsNumeral bs) : ∃ d ds, bs = d :: ds ∧ isDigit d = true := by
  obtain ⟨hwhole, _, _⟩ := h
  obtain ⟨d, ds, rfl⟩ := List.exists_cons_of_ne_nil hwhole.nonempty
  exact ⟨d, _, rfl, hwhole.digits d List.mem_cons_self⟩

theorem isNumeral_digits (n : Nat) : IsNumeral ((Decimal.digits n).map digitByte) := by
  have h := IsNumeral.parts (isWhole_digits n) .absent .absent
  rwa [List.append_nil, List.append_nil] at h

/-- Bytes that need no escape are quoted as they are. -/
theorem quoted_plain (h : ∀ b ∈ bs, IsPlain b) : Quoted (bs ++ [0x22]) := by
  induction bs with
  | nil => exact .close
  | cons b bs ih =>
    obtain ⟨hb, h⟩ := List.forall_mem_cons.1 h
    exact .plain hb (ih h)

end Values

section Tokens

variable {tokens : List Bytes} {bs blanks : Bytes}

/-- A token after all others, and blanks after it. -/
theorem Spaced.concat (h : Spaced tokens bs) (token : Bytes) (hblanks : Blanks blanks) :
    Spaced (tokens ++ [token]) (bs ++ (token ++ blanks)) := by
  induction h with
  | done hbefore => exact .token hbefore (.done hblanks)
  | token hbefore _ ih =>
    rw [List.append_assoc, List.append_assoc]
    exact .token hbefore ih

/-- The bytes of the tokens are among those that spell them. -/
theorem Spaced.length_le (h : Spaced tokens bs) : tokens.flatten.length ≤ bs.length := by
  induction h with
  | done _ => exact Nat.zero_le _
  | token _ _ ih =>
    simp only [List.flatten_cons, List.length_append]
    omega

theorem length_le_listed (ms : List Member) (first : Bool) :
    ms.length ≤ (listed first (ms.map Member.tokens)).flatten.length := by
  induction ms generalizing first with
  | nil => exact Nat.zero_le _
  | cons m ms ih =>
    have hrest := ih false
    cases first <;>
      simp only [List.map_cons, listed, Member.tokens, List.flatten_append, List.flatten_cons,
        List.length_append, List.length_cons] <;>
      omega

end Tokens

end Outline.Json
