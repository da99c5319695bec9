/-!
Texts as bytes, by UTF-8.

Bytes that are not UTF-8 fall into characters and broken stretches. A stretch is the start of a
character that breaks off, or a single byte.
-/
namespace Outline
set_option autoImplicit false

/-- A sequence of bytes. -/
abbrev Bytes := List UInt8

namespace Text

/-- The bytes of a text. -/
def utf8 (s : String) : Bytes := s.toUTF8.data.toList

/-- The text that some bytes spell, unless they are not UTF-8. -/
def ofUtf8? (bs : Bytes) : Option String := String.fromUTF8? ⟨bs.toArray⟩

theorem ofUtf8?_utf8 (s : String) : ofUtf8? (utf8 s) = some s := by
  have h : (⟨(utf8 s).toArray⟩ : ByteArray) = s.toUTF8 := by simp [utf8]
  unfold ofUtf8? String.fromUTF8?
  rw [h]
  exact dif_pos s.isValidUTF8

/-- The character that some bytes start with, and how many bytes it takes. -/
def firstChar? (bs : Bytes) : Option (Char × Nat) :=
  [1, 2, 3, 4].findSome? fun n =>
    match (ofUtf8? (bs.take n)).map String.toList with
    | some [c] => some (c, n)
    | _ => none

/-- Whether some bytes are the start of a character that takes more. -/
def isStart (bs : Bytes) : Bool :=
  [[0x80], [0x80, 0x80]].any fun rest =>
    match firstChar? (bs ++ rest) with
    | some (_, n) => n == bs.length + rest.length
    | none => false

/-- How many bytes the broken stretch takes that some bytes start with. -/
def brokenLength (bs : Bytes) : Nat :=
  if isStart (bs.take 3) then (bs.take 3).length
  else if isStart (bs.take 2) then (bs.take 2).length
  else 1

/-- The characters and the broken stretches of some bytes. -/
def pieces : Bytes → List (Char ⊕ Bytes)
  | [] => []
  | b :: bs =>
    match firstChar? (b :: bs) with
    | some (c, n) => .inl c :: pieces (bs.drop (n - 1))
    | none =>
      let n := brokenLength (b :: bs)
      .inr ((b :: bs).take n) :: pieces (bs.drop (n - 1))
  termination_by bs => bs.length
  decreasing_by all_goals simp only [List.length_drop, List.length_cons]; omega

/-- The text of some bytes, in which a mark stands for each broken stretch. -/
def marked (bs : Bytes) : String :=
  String.ofList ((pieces bs).map (Sum.elim id fun _ => '\uFFFD'))

end Text
end Outline
