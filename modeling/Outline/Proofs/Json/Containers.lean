import Outline.Proofs.Json.Scalars

/-!
Lists and objects are read back when their elements and members are.
-/
namespace Outline.Json
set_option autoImplicit false

/-- Values after the first, each with the comma before it. -/
def continued (vs : List Bytes) : Bytes := vs.flatMap (0x2C :: ·)

theorem separated_cons (v : Bytes) (vs : List Bytes) :
    separated (v :: vs) = v ++ continued vs := by
  induction vs generalizing v with
  | nil => simp [separated, continued]
  | cons w vs ih =>
    change v ++ 0x2C :: separated (w :: vs) = _
    rw [ih w]
    simp [continued]

/-- What may come first in an element: no blank and no closing bracket. -/
def Starts (bs : Bytes) : Prop :=
  ∃ b tail, bs = b :: tail ∧ isBlank b = false ∧ b ≠ 0x5D

theorem follows_continued (vs : List Bytes) (b : UInt8) (rest : Bytes) (hb : b = 0x5D ∨ b = 0x7D) :
    Follows (continued vs ++ b :: rest) := by
  intro x hx
  cases vs with
  | nil =>
    cases hx
    exact .inr (.inr (.inr hb))
  | cons v vs =>
    cases hx
    exact .inr (.inl rfl)

theorem length_le_continued (vs : List Bytes) : vs.length ≤ (continued vs).length := by
  induction vs with
  | nil => simp
  | cons v vs ih =>
    simp only [continued, List.flatMap_cons, List.length_append, List.length_cons] at ih ⊢
    omega

theorem length_le_separated (vs : List Bytes) (h : ∀ v ∈ vs, Starts v) :
    vs.length ≤ (separated vs).length := by
  cases vs with
  | nil => simp
  | cons v vs =>
    obtain ⟨b, tail, rfl, _⟩ := h v List.mem_cons_self
    have hlen := length_le_continued vs
    rw [separated_cons]
    simp only [List.length_append, List.length_cons]
    omega

section Lists

variable {α : Type} {element : Reader α}

theorem hasElement_first {bs : Bytes} (h : Starts bs) : hasElement true bs = .ok (true, bs) := by
  obtain ⟨b, tail, rfl, hblank, hclose⟩ := h
  unfold hasElement
  rw [reader_bind_of_ok (peek_cons hblank)]
  simp only [if_neg hclose, if_true]
  rfl

theorem hasElement_next {bs : Bytes} (h : Starts bs) :
    hasElement false (0x2C :: bs) = .ok (true, bs) := by
  obtain ⟨b, tail, rfl, hblank, hclose⟩ := h
  unfold hasElement
  rw [reader_bind_of_ok (peek_cons (by decide))]
  simp only
  rw [if_neg (by decide), if_neg (by decide), if_pos trivial,
    reader_bind_of_ok (drop_cons _ _),
    reader_bind_of_ok (peek_cons hblank)]
  simp only [if_neg hclose]
  rfl

theorem closeList_cons (rest : Bytes) : closeList (0x5D :: rest) = .ok ((), rest) := rfl

theorem Starts.append {bs : Bytes} (h : Starts bs) (rest : Bytes) : Starts (bs ++ rest) := by
  obtain ⟨b, tail, rfl, hb⟩ := h
  exact ⟨b, tail ++ rest, rfl, hb⟩

/-- The elements after the first are read back. -/
theorem elements_continued (vs : List (Bytes × α))
    (hvs : ∀ v ∈ vs, Starts v.1 ∧ Takes element v.1 v.2) (rest : Bytes) :
    ∀ rounds, vs.length < rounds →
      elements element rounds false (continued (vs.map (·.1)) ++ 0x5D :: rest) =
        .ok (vs.map (·.2), rest) := by
  induction vs with
  | nil =>
    intro rounds hr
    obtain ⟨k, rfl⟩ : ∃ k, rounds = k + 1 := ⟨rounds - 1, by omega⟩
    rfl
  | cons v vs ih =>
    intro rounds hr
    obtain ⟨k, rfl⟩ : ∃ k, rounds = k + 1 := ⟨rounds - 1, by omega⟩
    obtain ⟨hstart, htake⟩ := hvs v List.mem_cons_self
    have hrest := ih (fun w hw => hvs w (List.mem_cons_of_mem _ hw)) k (by simpa using hr)
    have hsplit : continued ((v :: vs).map (·.1)) ++ 0x5D :: rest =
        0x2C :: (v.1 ++ (continued (vs.map (·.1)) ++ 0x5D :: rest)) := by
      simp [continued]
    rw [hsplit, elements, reader_bind_of_ok (hasElement_next (hstart.append _)), if_pos rfl,
      reader_bind_of_ok (htake _ (follows_continued _ _ _ (.inl rfl))), reader_bind_of_ok hrest]
    rfl

theorem elements_separated (vs : List (Bytes × α))
    (hvs : ∀ v ∈ vs, Starts v.1 ∧ Takes element v.1 v.2) (rest : Bytes) {rounds : Nat}
    (hr : vs.length < rounds) :
    elements element rounds true (separated (vs.map (·.1)) ++ 0x5D :: rest) =
      .ok (vs.map (·.2), rest) := by
  obtain ⟨k, rfl⟩ : ∃ k, rounds = k + 1 := ⟨rounds - 1, by omega⟩
  cases vs with
  | nil => rfl
  | cons v vs =>
    obtain ⟨hstart, htake⟩ := hvs v List.mem_cons_self
    have hrest := elements_continued vs (fun w hw => hvs w (List.mem_cons_of_mem _ hw)) rest k
      (by simpa using hr)
    rw [List.map_cons, separated_cons, List.append_assoc, elements,
      reader_bind_of_ok (hasElement_first (hstart.append _)), if_pos rfl,
      reader_bind_of_ok (htake _ (follows_continued _ _ _ (.inl rfl))), reader_bind_of_ok hrest]
    rfl

theorem takes_listOf (vs : List (Bytes × α))
    (hvs : ∀ v ∈ vs, Starts v.1 ∧ Takes element v.1 v.2) :
    Takes (listOf element) (writeList (vs.map (·.1))) (vs.map (·.2)) := by
  intro rest _
  have hopen : writeList (vs.map (·.1)) ++ rest =
      0x5B :: (separated (vs.map (·.1)) ++ 0x5D :: rest) := by
    simp [writeList]
  have hrounds : vs.length < (separated (vs.map (·.1)) ++ 0x5D :: rest).length := by
    have hlen := length_le_separated (vs.map (·.1)) (by
      intro v hv
      obtain ⟨w, hw, rfl⟩ := List.mem_map.1 hv
      exact (hvs w hw).1)
    rw [List.length_map] at hlen
    simp only [List.length_append, List.length_cons]
    omega
  rw [hopen]
  unfold listOf
  rw [reader_bind_of_ok (peekValue_cons (by decide)), if_pos rfl,
    reader_bind_of_ok (drop_cons _ _)]
  exact elements_separated vs hvs rest hrounds

end Lists

section Objects

variable {σ : Type} {member : String → σ → Reader σ}

/-- Whether the members of an object, read one after the other, turn what was gathered into a
result. -/
def TakesMembers (member : String → σ → Reader σ) : σ → List (String × Bytes) → σ → Prop
  | gathered, [], result => gathered = result
  | gathered, (name, value) :: ms, result =>
    ∃ next, Takes (member name gathered) (0x3A :: value) next ∧ TakesMembers member next ms result

/-- The bytes of members. -/
def writeMembers (ms : List (String × Bytes)) : List Bytes := ms.map fun m => writeMember m.1 m.2

theorem hasMember_first (rest : Bytes) : hasMember true (0x22 :: rest) = .ok (true, 0x22 :: rest) :=
  rfl

theorem hasMember_next (rest : Bytes) :
    hasMember false (0x2C :: 0x22 :: rest) = .ok (true, 0x22 :: rest) := rfl

theorem writeMember_append (name : String) (value rest : Bytes) :
    writeMember name value ++ rest =
      0x22 :: ((Text.utf8 name).flatMap escapeByte ++ 0x22 :: (0x3A :: value ++ rest)) := by
  simp [writeMember, writeText]

/-- One round of a loop over members reads one of them. -/
theorem members_round {first : Bool} {name : String} {value bs tail : Bytes} {gathered next : σ}
    (rounds : Nat) (hnext : hasMember first bs = .ok (true, writeMember name value ++ tail))
    (htake : Takes (member name gathered) (0x3A :: value) next) (htail : Follows tail) :
    members member (rounds + 1) first gathered bs = members member rounds false next tail := by
  rw [writeMember_append] at hnext
  rw [members, reader_bind_of_ok hnext, if_pos rfl,
    reader_bind_of_ok (drop_cons _ _)]
  exact (reader_bind_of_ok (quotedText_write name _)).trans
    (reader_bind_of_ok (htake _ htail))

theorem members_continued (ms : List (String × Bytes)) (rest : Bytes) :
    ∀ (rounds : Nat) (gathered result : σ), ms.length < rounds →
      TakesMembers member gathered ms result →
      members member rounds false gathered (continued (writeMembers ms) ++ 0x7D :: rest) =
        .ok (result, rest) := by
  induction ms with
  | nil =>
    intro rounds gathered result hr hms
    obtain ⟨k, rfl⟩ : ∃ k, rounds = k + 1 := ⟨rounds - 1, by omega⟩
    cases hms
    rfl
  | cons m ms ih =>
    intro rounds gathered result hr hms
    obtain ⟨k, rfl⟩ : ∃ k, rounds = k + 1 := ⟨rounds - 1, by omega⟩
    obtain ⟨name, value⟩ := m
    obtain ⟨next, htake, hms⟩ := hms
    have hnext : hasMember false (continued (writeMembers ((name, value) :: ms)) ++ 0x7D :: rest) =
        .ok (true, writeMember name value ++ (continued (writeMembers ms) ++ 0x7D :: rest)) := by
      rw [writeMember_append, ← hasMember_next, ← writeMember_append]
      simp [continued, writeMembers]
    rw [members_round k hnext htake (follows_continued _ _ _ (.inr rfl))]
    exact ih k next result (by simpa using hr) hms

theorem starts_writeMember (name : String) (value : Bytes) : Starts (writeMember name value) := by
  refine ⟨0x22, (Text.utf8 name).flatMap escapeByte ++ 0x22 :: 0x3A :: value, ?_, by decide,
    by decide⟩
  simp [writeMember, writeText]

/-- The members of an object are read back, from its opening brace on. -/
theorem objectBody_write (ms : List (String × Bytes)) (start : σ) {result : σ}
    (hms : TakesMembers member start ms result) (rest : Bytes) :
    objectBody member start (separated (writeMembers ms) ++ 0x7D :: rest) = .ok (result, rest) := by
  have hrounds : ms.length < (separated (writeMembers ms) ++ 0x7D :: rest).length := by
    have hlen := length_le_separated (writeMembers ms) (by
      intro v hv
      obtain ⟨m, _, rfl⟩ := List.mem_map.1 hv
      exact starts_writeMember m.1 m.2)
    rw [writeMembers, List.length_map] at hlen
    simp only [writeMembers, List.length_append, List.length_cons]
    omega
  change members member _ true start _ = _
  obtain ⟨k, hk⟩ : ∃ k, (separated (writeMembers ms) ++ 0x7D :: rest).length = k + 1 :=
    ⟨(separated (writeMembers ms) ++ 0x7D :: rest).length - 1, by omega⟩
  rw [hk] at hrounds ⊢
  cases ms with
  | nil =>
    cases hms
    rfl
  | cons m ms =>
    obtain ⟨name, value⟩ := m
    obtain ⟨next, htake, hms⟩ := hms
    have hnext : hasMember true (separated (writeMembers ((name, value) :: ms)) ++ 0x7D :: rest) =
        .ok (true, writeMember name value ++ (continued (writeMembers ms) ++ 0x7D :: rest)) := by
      rw [writeMember_append, ← hasMember_first, ← writeMember_append, writeMembers, List.map_cons,
        separated_cons, List.append_assoc]
      rfl
    rw [members_round k hnext htake (follows_continued _ _ _ (.inr rfl))]
    exact members_continued ms rest k next result (by simpa using hrounds) hms

/-- A member that has not been seen is read after its colon. -/
theorem takes_once {α : Type} {value : Reader α} {bs : Bytes} {a : α} (h : Takes value bs a) :
    Takes (once none value) (0x3A :: bs) (some a) := by
  intro rest hrest
  unfold once
  have hcolon : colon (0x3A :: bs ++ rest) = .ok ((), bs ++ rest) := rfl
  simp only [Option.isSome_none, Bool.false_eq_true, if_false]
  exact (reader_bind_of_ok hcolon).trans (h.map (g := some) rest hrest)

end Objects

end Outline.Json
