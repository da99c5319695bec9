import Outline.Cache.Forests
import Outline.Proofs.Json.Scalars

/-!
The keys and tags of a cache: what each of them determines.

Numbers hold no colon, so a key falls apart at its colons, up to the locale. All keys of one manager
have the same locale.
-/
namespace Outline
set_option autoImplicit false

namespace Decimal

/-- A written number determines its value. -/
theorem chars_injective {i j : Int} (h : chars i = chars j) : i = j := by
  have hbytes : Json.writeInt i = Json.writeInt j := by rw [Json.writeInt, Json.writeInt, h]
  have hvalue : ∀ n, Json.digitsValue ((digits n).map Json.digitByte) = n := by
    intro n
    rw [Json.digitsValue_digits _ (Json.digits_lt n), value_digits]
  have hsign : ∀ n m, (digits n).map Json.digitByte ≠ 0x2D :: (digits m).map Json.digitByte := by
    intro n m heq
    obtain ⟨d, ds, hds, _⟩ := Json.digits_head n
    have hd := Json.digitByte_spec (Json.digits_lt n d (by rw [hds]; exact List.mem_cons_self))
    rw [hds] at heq
    exact hd.2.2.2.2.1 (List.cons.inj heq).1
  cases i with
  | ofNat n =>
    rw [show Json.writeInt (.ofNat n) = _ from Json.writeInt_ofNat n] at hbytes
    cases j with
    | ofNat m =>
      rw [show Json.writeInt (.ofNat m) = _ from Json.writeInt_ofNat m] at hbytes
      rw [← hvalue n, ← hvalue m, hbytes]
    | negSucc m =>
      rw [Json.writeInt_negSucc] at hbytes
      exact absurd hbytes (hsign n (m + 1))
  | negSucc n =>
    rw [Json.writeInt_negSucc] at hbytes
    cases j with
    | ofNat m =>
      rw [show Json.writeInt (.ofNat m) = _ from Json.writeInt_ofNat m] at hbytes
      exact absurd hbytes.symm (hsign m (n + 1))
    | negSucc m =>
      rw [Json.writeInt_negSucc] at hbytes
      have hnm := hvalue (n + 1)
      rw [(List.cons.inj hbytes).2, hvalue] at hnm
      rw [show m = n by omega]

theorem toList_text (i : Int) : (text i).toList = chars i := String.toList_ofList

/-- A written number holds neither a colon nor a letter. -/
theorem chars_plain (i : Int) : ∀ c ∈ chars i, c ≠ ':' ∧ c ≠ 's' := by
  have hdigit : ∀ n, ∀ c ∈ (digits n).map digitChar, c ≠ ':' ∧ c ≠ 's' := by
    intro n c hc
    obtain ⟨d, hd, rfl⟩ := List.mem_map.1 hc
    have hall : ∀ k : Fin 10, digitChar k.val ≠ ':' ∧ digitChar k.val ≠ 's' := by decide
    exact hall ⟨d, Json.digits_lt n d hd⟩
  cases i with
  | ofNat n => exact hdigit n
  | negSucc n =>
    intro c hc
    rcases List.mem_cons.1 hc with rfl | hc
    · decide
    · exact hdigit (n + 1) c hc

theorem chars_ne_nil (i : Int) : chars i ≠ [] := by
  cases i with
  | ofNat n =>
    obtain ⟨d, ds, hds, _⟩ := Json.digits_head n
    simp [chars, hds]
  | negSucc n => simp [chars]

theorem colon_split {a b s t : List Char} (ha : ∀ c ∈ a, c ≠ ':') (hb : ∀ c ∈ b, c ≠ ':')
    (h : a ++ ':' :: s = b ++ ':' :: t) : a = b ∧ s = t := by
  induction a generalizing b with
  | nil =>
    cases b with
    | nil => exact ⟨rfl, (List.cons.inj h).2⟩
    | cons c b => exact absurd (List.cons.inj h).1.symm (hb c List.mem_cons_self)
  | cons c a ih =>
    cases b with
    | nil => exact absurd (List.cons.inj h).1 (ha c List.mem_cons_self)
    | cons d b =>
      obtain ⟨hcd, htail⟩ := List.cons.inj h
      obtain ⟨hab, hst⟩ := ih (fun x hx => ha x (List.mem_cons_of_mem _ hx))
        (fun x hx => hb x (List.mem_cons_of_mem _ hx)) htail
      exact ⟨by rw [hcd, hab], hst⟩

/-- A number and what comes after the colon behind it can be told apart. -/
theorem chars_colon {i j : Int} {s t : List Char} (h : chars i ++ ':' :: s = chars j ++ ':' :: t) :
    i = j ∧ s = t := by
  obtain ⟨hc, hst⟩ := colon_split (fun c hc => (chars_plain i c hc).1)
    (fun c hc => (chars_plain j c hc).1) h
  exact ⟨chars_injective hc, hst⟩

end Decimal

namespace Cache

variable {locale : String} {bid bid' focus focus' nid nid' : PageId} {d d' : Option Nat}

theorem toList_four (a b c d : String) :
    (a ++ b ++ c ++ d).toList = a.toList ++ (b.toList ++ (c.toList ++ d.toList)) := by
  simp only [String.toList_append, List.append_assoc]

theorem toList_five (a b c d e : String) : (a ++ b ++ c ++ d ++ e).toList =
    a.toList ++ (b.toList ++ (c.toList ++ (d.toList ++ e.toList))) := by
  simp only [String.toList_append, List.append_assoc]

theorem toList_colon : ":".toList = [':'] := by decide

theorem toList_all : ":all:".toList = ':' :: "all:".toList := by decide

theorem toList_bookKey : (bookKey locale bid focus d).toList =
    "book-links:".toList ++ (Decimal.chars bid.toInt ++ ':' :: ("all:".toList ++
      (Decimal.chars focus.toInt ++ ':' ::
        (locale.toList ++ ':' :: Decimal.chars ((d.getD 0 : Nat) : Int))))) := by
  refine (toList_five _ _ _ _ _).trans ?_
  rw [toList_four, Decimal.toList_text, Decimal.toList_text, Decimal.toList_text, toList_colon,
    toList_all]
  simp only [List.append_assoc, List.cons_append, List.nil_append]

theorem toList_pointerKey : (pointerKey locale nid).toList =
    "book-links:subtree-cid:".toList ++ (Decimal.chars nid.toInt ++ ':' :: locale.toList) := by
  refine (toList_four _ _ _ _).trans ?_
  rw [Decimal.toList_text, toList_colon]
  rfl

theorem toList_payloadKey (payload : Bytes) : (payloadKey payload).toList =
    "book-links:subtree-data:".toList ++ (Sha256.hex payload).toList :=
  String.toList_append

theorem toList_bookTag : (bookTag bid).toList = "bid:".toList ++ Decimal.chars bid.toInt :=
  String.toList_append.trans (congrArg _ (Decimal.toList_text _))

/-- The key of a book's forest determines the request, but for a limit of zero. -/
theorem bookKey_injective (h : bookKey locale bid focus d = bookKey locale bid' focus' d') :
    bid = bid' ∧ focus = focus' ∧ d.getD 0 = d'.getD 0 := by
  have hlist := congrArg String.toList h
  rw [toList_bookKey, toList_bookKey] at hlist
  obtain ⟨hbid, hrest⟩ := Decimal.chars_colon (List.append_cancel_left hlist)
  obtain ⟨hfocus, hrest⟩ := Decimal.chars_colon (List.append_cancel_left hrest)
  have hlimit := Decimal.chars_injective (List.cons.inj (List.append_cancel_left hrest)).2
  exact ⟨Int64.toInt.inj hbid, Int64.toInt.inj hfocus, Int.ofNat.inj hlimit⟩

theorem pointerKey_injective (h : pointerKey locale nid = pointerKey locale nid') : nid = nid' := by
  have hlist := congrArg String.toList h
  rw [toList_pointerKey, toList_pointerKey] at hlist
  exact Int64.toInt.inj (Decimal.chars_colon (List.append_cancel_left hlist)).1

theorem payloadKey_injective {p q : Bytes} (h : payloadKey p = payloadKey q) :
    Sha256.hex p = Sha256.hex q := by
  have hlist := congrArg String.toList h
  rw [toList_payloadKey, toList_payloadKey] at hlist
  exact String.toList_injective (List.append_cancel_left hlist)

theorem bookTag_injective (h : bookTag bid = bookTag bid') : bid = bid' := by
  have hlist := congrArg String.toList h
  rw [toList_bookTag, toList_bookTag] at hlist
  exact Int64.toInt.inj (Decimal.chars_injective (List.append_cancel_left hlist))

/-- The key of a book's forest is followed by a number, the others by a letter. -/
theorem bookKey_ne (rest : List Char) {key : String}
    (hkey : key.toList = "book-links:".toList ++ 's' :: rest) :
    bookKey locale bid focus d ≠ key := by
  intro h
  have hlist := congrArg String.toList h
  rw [toList_bookKey, hkey] at hlist
  have hrest := List.append_cancel_left hlist
  cases hc : Decimal.chars bid.toInt with
  | nil => exact Decimal.chars_ne_nil _ hc
  | cons c cs =>
    rw [hc] at hrest
    exact (Decimal.chars_plain bid.toInt c (by rw [hc]; exact List.mem_cons_self)).2
      (List.cons.inj hrest).1

theorem bookKey_ne_pointerKey : bookKey locale bid focus d ≠ pointerKey locale nid := by
  apply bookKey_ne ("ubtree-cid:".toList ++ (Decimal.chars nid.toInt ++ ':' :: locale.toList))
  rw [toList_pointerKey]
  rfl

theorem bookKey_ne_payloadKey (payload : Bytes) :
    bookKey locale bid focus d ≠ payloadKey payload := by
  apply bookKey_ne ("ubtree-data:".toList ++ (Sha256.hex payload).toList)
  rw [toList_payloadKey]
  rfl

theorem pointerKey_ne_payloadKey (payload : Bytes) :
    pointerKey locale nid ≠ payloadKey payload := by
  intro h
  have hlist := congrArg String.toList h
  rw [toList_pointerKey, toList_payloadKey] at hlist
  have htake := congrArg (List.take 20) hlist
  rw [List.take_append_of_le_length (by decide), List.take_append_of_le_length (by decide)] at htake
  exact absurd htake (by decide)

end Cache

end Outline
