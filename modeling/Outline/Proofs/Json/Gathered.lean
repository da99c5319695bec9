import Outline.Proofs.Json.Containers
import Outline.Proofs.Json.Delimited

/-!
Lists and objects are read the same whatever blanks stand between their tokens.

Reading an object comes to gathering what its members say, one after the other. The first of them
that is refused ends it.
-/
namespace Outline.Json
set_option autoImplicit false

variable {α β σ : Type}

section Blanks

variable {r : Reader α} {token v bs blanks : Bytes} {tokens : List Bytes}

theorem peek_blanks (h : Blanks blanks) (bs : Bytes) : peek (blanks ++ bs) = peek bs := by
  unfold peek
  rw [List.dropWhile_append_of_pos h]

/-- A reader that passes over the blanks before what it reads. -/
def SkipsBlanks (r : Reader α) : Prop := ∀ blanks bs, Blanks blanks → r (blanks ++ bs) = r bs

theorem SkipsBlanks.bind (h : SkipsBlanks r) (f : α → Reader β) : SkipsBlanks (r >>= f) := by
  intro blanks bs hblanks
  change (r (blanks ++ bs) >>= _) = (r bs >>= _)
  rw [h blanks bs hblanks]

theorem SkipsBlanks.map (h : SkipsBlanks r) (g : α → β) : SkipsBlanks (g <$> r) := by
  rw [← bind_pure_comp]
  exact h.bind _

theorem skipsBlanks_peek : SkipsBlanks peek := fun _ bs h => peek_blanks h bs

theorem skipsBlanks_peekValue : SkipsBlanks peekValue := skipsBlanks_peek.bind _

theorem skipsBlanks_text : SkipsBlanks text := skipsBlanks_peekValue.bind _

theorem skipsBlanks_integer (least most : Int) : SkipsBlanks (integer least most) :=
  skipsBlanks_peekValue.bind _

/-- The first token comes next, but for blanks. -/
theorem SkipsBlanks.at_token (h : SkipsBlanks r) (hs : Spaced (token :: tokens) bs) :
    ∃ rest, Spaced tokens rest ∧ r bs = r (token ++ rest) := by
  obtain _ | ⟨hblanks, hrest⟩ := hs
  exact ⟨_, hrest, h _ _ hblanks⟩

end Blanks

section Marks

/-- A token that ends what comes before it. -/
def IsMark (token : Bytes) : Prop :=
  token = [0x2C] ∨ token = [0x3A] ∨ token = [0x5D] ∨ token = [0x7D]

/-- Tokens that may come after a name or a value. -/
def After (tokens : List Bytes) : Prop := ∀ token ∈ tokens.head?, IsMark token

theorem after_listed (groups : List (List Bytes)) {token : Bytes} (h : IsMark token) :
    After (listed false groups ++ [token]) := by
  cases groups with
  | nil =>
    rintro _ ⟨⟩
    exact h
  | cons group groups =>
    rintro _ ⟨⟩
    exact .inl rfl

theorem Spaced.follows {tokens : List Bytes} {bs : Bytes} (h : Spaced tokens bs)
    (hafter : After tokens) : Follows bs := by
  intro b hb
  obtain hblanks | @⟨blanks, token, rest, _, hblanks, _⟩ := h
  · exact .inl (hblanks b (List.mem_of_mem_head? hb))
  · cases blanks with
    | cons c blanks =>
      cases hb
      exact .inl (hblanks _ List.mem_cons_self)
    | nil =>
      rcases hafter token rfl with rfl | rfl | rfl | rfl <;> cases hb
      · exact .inr (.inl rfl)
      · exact .inr (.inr (.inl rfl))
      · exact .inr (.inr (.inr (.inl rfl)))
      · exact .inr (.inr (.inr (.inr rfl)))

end Marks

section Tokens

variable {r : Reader α} {v : Bytes}

/-- A reader makes the same of some tokens whatever blanks stand between them, and leaves what comes
after them. -/
def ReadsSpaced (r : Reader α) (tokens : List Bytes) : Prop :=
  ∀ after bs, After after → Spaced (tokens ++ after) bs →
    ∃ rest, Spaced after rest ∧ r bs = (r tokens.flatten).map fun p => (p.1, rest)

theorem readsSpaced_one (hskip : SkipsBlanks r) (hv : Delimits r v) : ReadsSpaced r [v] := by
  intro after bs hafter hs
  obtain ⟨rest, hrest, heq⟩ := hskip.at_token hs
  refine ⟨rest, hrest, heq.trans ?_⟩
  rw [List.flatten_singleton]
  exact hv.eq (hrest.follows hafter)

theorem Spaced.exists_rest {tokens after : List Bytes} {bs : Bytes}
    (h : Spaced (tokens ++ after) bs) : ∃ rest, Spaced after rest := by
  induction tokens generalizing bs with
  | nil => exact ⟨bs, h⟩
  | cons token tokens ih =>
    obtain _ | ⟨_, hrest⟩ := h
    exact ih hrest

theorem readsSpaced_throw (fault : Fault) (tokens : List Bytes) :
    ReadsSpaced (throw fault : Reader α) tokens := by
  intro after bs _ hs
  obtain ⟨rest, hrest⟩ := hs.exists_rest
  exact ⟨rest, hrest, rfl⟩

theorem ReadsSpaced.bind_pure {tokens : List Bytes} {g : α → β} (h : ReadsSpaced r tokens) :
    ReadsSpaced (r >>= fun a => pure (g a)) tokens := by
  intro after bs hafter hs
  obtain ⟨rest, hrest, heq⟩ := h after bs hafter hs
  refine ⟨rest, hrest, ?_⟩
  change (r bs >>= fun p => pure (g p.1, p.2)) =
    (r tokens.flatten >>= fun p => pure (g p.1, p.2)).map _
  rw [heq]
  cases r tokens.flatten <;> rfl

theorem skipsBlanks_colon : SkipsBlanks colon := skipsBlanks_peek.bind _

theorem readsSpaced_colon {tokens : List Bytes} (h : ReadsSpaced r tokens) :
    ReadsSpaced (colon >>= fun _ => r) ([0x3A] :: tokens) := by
  intro after bs hafter hs
  obtain ⟨next, hnext, hcolon⟩ := skipsBlanks_colon.at_token hs
  obtain ⟨rest, hrest, heq⟩ := h after next hafter hnext
  exact ⟨rest, hrest, (reader_bind_of_ok hcolon).trans heq⟩

theorem readsSpaced_once {value : Reader α} (seen : Option α) (h : ReadsSpaced value [v]) :
    ReadsSpaced (once seen value) [[0x3A], v] := by
  cases seen with
  | none => exact readsSpaced_colon h.bind_pure
  | some a => exact readsSpaced_throw _ _

end Tokens

section Objects

variable {member : String → σ → Reader σ} {start : σ} {m : Member} {ms : List Member} {bs v : Bytes}

/-- What members say, read one after the other. -/
def gather (member : String → σ → Reader σ) : σ → List Member → Except Fault σ
  | gathered, [] => .ok gathered
  | gathered, m :: ms => do
    let (name, _) ← text m.name
    let (next, _) ← member name gathered (0x3A :: m.value)
    gather member next ms

theorem gather_cons {name : String} {next : σ} {rest rest' : Bytes}
    (hname : text m.name = .ok (name, rest))
    (hm : member name start (0x3A :: m.value) = .ok (next, rest')) :
    gather member start (m :: ms) = gather member next ms := by
  rw [gather, hname]
  change (member name start (0x3A :: m.value) >>= _) = _
  rw [hm]
  rfl

/-- The name that a member has, its escapes replaced. -/
def Member.name? (m : Member) : Option String :=
  match text m.name with
  | .ok (name, _) => some name
  | .error _ => none

/-- A reader of members that makes the same of each with blanks in it as without. -/
def ReadsMembers (member : String → σ → Reader σ) : Prop :=
  ∀ name gathered v, IsValue v → ReadsSpaced (member name gathered) [[0x3A], v]

theorem text_quote (bs : Bytes) : text (0x22 :: bs) = quotedText bs :=
  reader_bind_of_ok (peekValue_cons rfl)

theorem skipsBlanks_hasMember (first : Bool) : SkipsBlanks (hasMember first) :=
  skipsBlanks_peek.bind _

theorem hasMember_end {first : Bool} {after : List Bytes} (hs : Spaced ([0x7D] :: after) bs) :
    ∃ rest, Spaced after rest ∧ hasMember first bs = .ok (false, 0x7D :: rest) :=
  (skipsBlanks_hasMember first).at_token hs

/-- Where a member comes next, its name is found, after the comma if there has to be one. -/
theorem hasMember_listed {first : Bool} {q : Bytes} {group after : List Bytes}
    {groups : List (List Bytes)}
    (hs : Spaced (listed first (((0x22 :: q) :: group) :: groups) ++ after) bs) :
    ∃ rest, Spaced (group ++ (listed false groups ++ after)) rest ∧
      hasMember first bs = .ok (true, 0x22 :: (q ++ rest)) := by
  cases first with
  | true =>
    rw [listed, List.append_assoc, List.cons_append] at hs
    obtain ⟨rest, hrest, heq⟩ := (skipsBlanks_hasMember true).at_token hs
    exact ⟨rest, hrest, heq⟩
  | false =>
    rw [listed, List.cons_append, List.append_assoc, List.cons_append] at hs
    obtain ⟨next, hnext, heq⟩ := (skipsBlanks_hasMember false).at_token hs
    obtain ⟨rest, hrest, hpeek⟩ := skipsBlanks_peek.at_token hnext
    refine ⟨rest, hrest, heq.trans ?_⟩
    unfold hasMember
    rw [List.singleton_append, reader_bind_of_ok (peek_cons rfl)]
    dsimp only
    rw [if_neg (by decide), if_neg (by decide), if_pos rfl, reader_bind_of_ok (drop_cons _ _),
      reader_bind_of_ok hpeek]
    rfl

/-- The loop over members, between any blanks, comes to gathering them. -/
theorem members_spaced (hmember : ReadsMembers member) (ms : List Member) :
    ∀ rounds first gathered bs, (∀ m ∈ ms, m.Proper) → ms.length < rounds →
      Spaced (listed first (ms.map Member.tokens) ++ [[0x7D]]) bs →
      ∃ rest, Blanks rest ∧ members member rounds first gathered bs =
        (gather member gathered ms).map fun result => (result, rest) := by
  induction ms with
  | nil =>
    intro rounds first gathered bs _ hr hs
    obtain ⟨k, rfl⟩ : ∃ k, rounds = k + 1 := ⟨rounds - 1, by omega⟩
    obtain ⟨rest, hrest, hend⟩ : ∃ rest, Spaced [] rest ∧
        hasMember first bs = .ok (false, 0x7D :: rest) :=
      hasMember_end (by cases first <;> exact hs)
    obtain ⟨hblanks⟩ := hrest
    refine ⟨rest, hblanks, ?_⟩
    rw [members, reader_bind_of_ok hend, if_neg (by decide), reader_bind_of_ok (drop_cons _ _)]
    rfl
  | cons m ms ih =>
    intro rounds first gathered bs hproper hr hs
    obtain ⟨k, rfl⟩ : ∃ k, rounds = k + 1 := ⟨rounds - 1, by omega⟩
    obtain ⟨name, v⟩ := m
    obtain ⟨⟨hname, hvalue⟩, hms⟩ := List.forall_mem_cons.1 hproper
    obtain @⟨q, hq⟩ := hname
    obtain ⟨next, hnext, hhas⟩ := hasMember_listed hs
    have hquoted := hq.delimits.eq (hnext.follows fun _ ht => Option.some.inj ht ▸ .inr (.inl rfl))
    rw [members, reader_bind_of_ok hhas, if_pos rfl, reader_bind_of_ok (drop_cons _ _), gather,
      text_quote]
    cases hread : quotedText q with
    | error fault =>
      rw [hread] at hquoted
      refine ⟨[], blanks_nil, ?_⟩
      change (quotedText (q ++ next) >>= _) = _
      rw [hquoted]
      rfl
    | ok p =>
      rw [hread] at hquoted
      rw [reader_bind_of_ok hquoted]
      obtain ⟨rest, hrest, heq⟩ := hmember p.1 gathered v hvalue _ next
        (after_listed _ (.inr (.inr (.inr rfl)))) hnext
      have hflat : [[0x3A], v].flatten = 0x3A :: v := by simp
      rw [hflat] at heq
      change ∃ rest, Blanks rest ∧ (member p.1 gathered next >>= fun found =>
        members member k false found.1 found.2) = Except.map _
          (member p.1 gathered (0x3A :: v) >>= fun found => gather member found.1 ms)
      rw [heq]
      cases member p.1 gathered (0x3A :: v) with
      | error fault => exact ⟨[], blanks_nil, rfl⟩
      | ok found => exact ih k false found.1 rest hms (by simpa using hr) hrest

/-- An object is read by gathering its members. -/
theorem objectBody_spaced (hmember : ReadsMembers member) (hms : ∀ m ∈ ms, m.Proper)
    (hv : IsObject ms v) (hs : Spaced [v] bs) (start : σ) :
    ∃ inner rest, peekValue bs = .ok (0x7B, 0x7B :: inner) ∧ Blanks rest ∧
      objectBody member start inner =
        (gather member start ms).map fun result => (result, rest) := by
  obtain @⟨inner, hinner⟩ := hv
  obtain ⟨after, ⟨hafter⟩, hpeek⟩ := skipsBlanks_peekValue.at_token hs
  have hclosed := hinner.concat [0x7D] hafter
  have hrounds : ms.length < (inner ++ ([0x7D] ++ after)).length := by
    have hinside := hinner.length_le
    have hlisted := length_le_listed ms true
    simp only [List.length_append, List.length_singleton]
    omega
  obtain ⟨rest, hrest, heq⟩ := members_spaced hmember ms _ true start _ hms hrounds hclosed
  refine ⟨_, rest, hpeek.trans ?_, hrest, heq⟩
  rw [List.cons_append, List.append_assoc]
  rfl

end Objects

section Lists

variable {first : Bool} {groups : List (List Bytes)} {values : List Bytes} {bs v : Bytes}

theorem IsValue.starts (h : IsValue v) : Starts v := by
  obtain ⟨b, tail, hv, hfirst⟩ := h.first
  exact ⟨b, tail, hv, hfirst.notBlank, hfirst.notEnd⟩

theorem skipsBlanks_hasElement (first : Bool) : SkipsBlanks (hasElement first) :=
  skipsBlanks_peek.bind _

theorem hasElement_end {after : List Bytes} (hs : Spaced ([0x5D] :: after) bs) :
    ∃ rest, Spaced after rest ∧ hasElement first bs = .ok (false, 0x5D :: rest) :=
  (skipsBlanks_hasElement first).at_token hs

/-- Where an element comes next, it is found, after the comma if there has to be one. -/
theorem hasElement_listed (hv : Starts v)
    (hs : Spaced (listed first ([v] :: groups) ++ [[0x5D]]) bs) :
    ∃ rest, Spaced (listed false groups ++ [[0x5D]]) rest ∧
      hasElement first bs = .ok (true, v ++ rest) := by
  cases first with
  | true =>
    obtain ⟨rest, hrest, heq⟩ := (skipsBlanks_hasElement true).at_token hs
    exact ⟨rest, hrest, heq.trans (hasElement_first (hv.append rest))⟩
  | false =>
    obtain ⟨next, hnext, heq⟩ := (skipsBlanks_hasElement false).at_token hs
    obtain ⟨rest, hrest, hpeek⟩ := skipsBlanks_peek.at_token hnext
    refine ⟨rest, hrest, heq.trans ?_⟩
    -- The comma is dropped before the blanks that come after it.
    obtain ⟨b, tail, rfl, hblank, hend⟩ := hv
    unfold hasElement
    rw [List.singleton_append, reader_bind_of_ok (peek_cons rfl)]
    dsimp only
    rw [if_neg (by decide), if_neg (by decide), if_pos rfl, reader_bind_of_ok (drop_cons _ _),
      reader_bind_of_ok (hpeek.trans (peek_cons hblank))]
    dsimp only
    rw [if_neg hend]
    rfl

/-- An element that comes next is found and read. -/
theorem element_spaced {r : Reader α} {a : α} (hv : Starts v) (hr : Takes r v a)
    (hs : Spaced (listed first ([v] :: groups) ++ [[0x5D]]) bs) :
    ∃ next rest, Spaced (listed false groups ++ [[0x5D]]) rest ∧
      hasElement first bs = .ok (true, next) ∧ r next = .ok (a, rest) := by
  obtain ⟨rest, hrest, hhas⟩ := hasElement_listed hv hs
  exact ⟨v ++ rest, rest, hrest, hhas,
    hr rest (hrest.follows (after_listed groups (.inr (.inr (.inl rfl)))))⟩

theorem closeList_spaced (hs : Spaced [[0x5D]] bs) :
    ∃ rest, Blanks rest ∧ closeList bs = .ok ((), rest) := by
  have hskip : SkipsBlanks closeList := skipsBlanks_peek.bind _
  obtain ⟨rest, ⟨hrest⟩, hclose⟩ := hskip.at_token hs
  exact ⟨rest, hrest, hclose⟩

/-- A list is read from its first element on. -/
theorem list_spaced (hv : IsList values v) (hs : Spaced [v] bs) :
    ∃ inner, peekValue bs = .ok (0x5B, 0x5B :: inner) ∧
      Spaced (listed true (values.map fun v => [v]) ++ [[0x5D]]) inner := by
  obtain @⟨inner, hinner⟩ := hv
  obtain ⟨after, ⟨hafter⟩, hpeek⟩ := skipsBlanks_peekValue.at_token hs
  refine ⟨inner ++ ([0x5D] ++ after), hpeek.trans ?_, hinner.concat [0x5D] hafter⟩
  rw [List.cons_append, List.append_assoc]
  rfl

end Lists

theorem readAll_of_outcome {r : Reader α} {bs rest : Bytes} {outcome : Except Fault α}
    (h : r bs = outcome.map fun a => (a, rest)) (hrest : Blanks rest) : readAll r bs = outcome := by
  unfold readAll
  rw [h]
  cases outcome with
  | error fault => rfl
  | ok a =>
    dsimp only [Except.map]
    rw [if_pos (List.all_eq_true.2 hrest)]

end Outline.Json
