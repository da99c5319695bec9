import Outline.Json.Container

/-!
What readers can yield, and readers that yield at least the same.

A reader that is allowed deeper nesting reads whatever one that is allowed less reads. Both this and
what is known of a value that was read are said by one relation, so each way to combine readers has
one lemma.
-/
namespace Outline.Json
set_option autoImplicit false

variable {α β σ : Type} {p : α → Prop} {q : β → Prop} {r r' : Reader α}

/-- Whatever the first reader takes has a property, and the second one takes it as well. -/
def Yields (p : α → Prop) (r r' : Reader α) : Prop :=
  ∀ bs a rest, r bs = .ok (a, rest) → p a ∧ r' bs = .ok (a, rest)

theorem yields_self (r : Reader α) : Yields (fun _ => True) r r :=
  fun _ _ _ h => ⟨trivial, h⟩

theorem yields_throw (fault : Fault) (r' : Reader α) : Yields p (throw fault) r' :=
  fun _ _ _ h => nomatch h

theorem yields_pure {a : α} (h : p a) : Yields p (pure a) (pure a) := by
  intro bs b rest hb
  cases hb
  exact ⟨h, rfl⟩

theorem Yields.imp {p' : α → Prop} (h : Yields p r r') (hp : ∀ a, p a → p' a) : Yields p' r r' :=
  fun bs a rest hr => ⟨hp a (h bs a rest hr).1, (h bs a rest hr).2⟩

theorem Yields.bind {f f' : α → Reader β} (h : Yields p r r')
    (hf : ∀ a, p a → Yields q (f a) (f' a)) : Yields q (r >>= f) (r' >>= f') := by
  intro bs b rest hb
  change (r bs >>= fun x => f x.1 x.2) = _ at hb
  cases hr : r bs with
  | error fault =>
    rw [hr] at hb
    cases hb
  | ok x =>
    obtain ⟨a, bs'⟩ := x
    rw [hr] at hb
    obtain ⟨hp, hr'⟩ := h bs a bs' hr
    obtain ⟨hq, hf'⟩ := hf a hp bs' b rest hb
    refine ⟨hq, ?_⟩
    change (r' bs >>= fun x => f' x.1 x.2) = _
    rw [hr']
    exact hf'

theorem Yields.map {g : α → β} (h : Yields p r r') (hq : ∀ a, p a → q (g a)) :
    Yields q (g <$> r) (g <$> r') := by
  rw [← bind_pure_comp, ← bind_pure_comp]
  exact h.bind fun a ha => yields_pure (hq a ha)

/-- A reader that goes on after something it has read. -/
theorem yields_after {s : Reader β} {f f' : β → Reader α} (h : ∀ b, Yields p (f b) (f' b)) :
    Yields p (s >>= f) (s >>= f') :=
  (yields_self s).bind fun b _ => h b

theorem yields_ite {c : Prop} [Decidable c] {s s' : Reader α} (h : c → Yields p r r')
    (h' : ¬ c → Yields p s s') : Yields p (if c then r else s) (if c then r' else s') := by
  split
  · next hc => exact h hc
  · next hc => exact h' hc

/-- Nothing needs to be known of a second reader where the first one never takes a value. -/
theorem yields_of_never (h : Yields (fun _ => False) r r) (r' : Reader α) : Yields p r r' :=
  fun bs a rest hr => (h bs a rest hr).1.elim

/-- A value of another kind is never taken. -/
theorem yields_refuse (r' : Reader α) : Yields p refuse r' := by
  refine yields_of_never (yields_after fun b => ?_) r'
  have hword (s : Reader Unit) : Yields (fun _ : α => False)
      (drop >>= fun _ => s >>= fun _ => throw .unsuitable)
      (drop >>= fun _ => s >>= fun _ => throw .unsuitable) :=
    yields_after fun _ => yields_after fun _ => yields_throw _ _
  refine yields_ite (fun _ => hword _) fun _ => ?_
  refine yields_ite (fun _ => hword _) fun _ => ?_
  refine yields_ite (fun _ => hword _) fun _ => ?_
  refine yields_ite (fun _ => yields_after fun _ => yields_after fun _ => yields_throw _ _)
    fun _ => ?_
  refine yields_ite (fun _ => yields_after fun _ => yields_throw _ _) fun _ => ?_
  refine yields_ite (fun _ => yields_after fun _ => yields_after fun _ => yields_throw _ _)
    fun _ => ?_
  exact yields_ite (fun _ => yields_throw _ _) fun _ => yields_throw _ _

theorem yields_integer (least most : Int) :
    Yields (fun i => least ≤ i ∧ i ≤ most) (integer least most) (integer least most) := by
  refine yields_after fun _ => yields_after fun n => ?_
  cases n with
  | whole i => exact yields_ite (fun h => yields_pure h) fun _ => yields_throw _ _
  | other => exact yields_throw _ _

section Lists

variable {element element' : Reader α}

theorem yields_elements (h : Yields p element element') (rounds : Nat) :
    ∀ first, Yields (fun as => ∀ a ∈ as, p a) (elements element rounds first)
      (elements element' rounds first) := by
  induction rounds with
  | zero => exact fun first => yields_throw _ _
  | succ rounds ih =>
    intro first
    refine yields_after fun more => yields_ite (fun _ => ?_) fun _ => ?_
    · refine h.bind fun a ha => (ih false).bind fun as has => yields_pure ?_
      exact List.forall_mem_cons.2 ⟨ha, has⟩
    · exact yields_after fun _ => yields_pure fun a ha => nomatch ha

theorem yields_listOf (h : Yields p element element') :
    Yields (fun as => ∀ a ∈ as, p a) (listOf element) (listOf element') := by
  refine yields_after fun b => yields_ite (fun _ => yields_after fun _ => ?_) fun _ =>
    yields_refuse _
  exact fun bs => yields_elements h bs.length true bs

theorem yields_nextElement (first : Bool) (h : Yields p element element') :
    Yields p (nextElement first element) (nextElement first element') :=
  yields_after fun _ => yields_ite (fun _ => h) fun _ => yields_throw _ _

end Lists

section Objects

variable {law : σ → Prop} {member member' : String → σ → Reader σ}

/-- What holds at the start, and is kept by every member, holds of what is gathered. -/
theorem yields_members
    (h : ∀ name gathered, law gathered →
      Yields law (member name gathered) (member' name gathered)) (rounds : Nat) :
    ∀ first gathered, law gathered →
      Yields law (members member rounds first gathered) (members member' rounds first gathered) := by
  induction rounds with
  | zero => exact fun first gathered _ => yields_throw _ _
  | succ rounds ih =>
    intro first gathered hlaw
    refine yields_after fun more => yields_ite (fun _ => ?_) fun _ => ?_
    · refine yields_after fun _ => yields_after fun name => ?_
      exact (h name gathered hlaw).bind fun next hnext => ih false next hnext
    · exact yields_after fun _ => yields_pure hlaw

theorem yields_objectBody {start : σ} (hstart : law start)
    (h : ∀ name gathered, law gathered →
      Yields law (member name gathered) (member' name gathered)) :
    Yields law (objectBody member start) (objectBody member' start) :=
  fun bs => yields_members h bs.length true start hstart bs

theorem yields_once {value value' : Reader α} (seen : Option α) (h : Yields p value value') :
    Yields (fun found => ∀ a ∈ found, p a) (once seen value) (once seen value') := by
  refine yields_ite (fun _ => yields_throw _ _) fun _ => yields_after fun _ => ?_
  refine h.bind fun a ha => ?_
  refine yields_pure fun b hb => ?_
  rw [← Option.some.inj hb]
  exact ha

end Objects

end Outline.Json
