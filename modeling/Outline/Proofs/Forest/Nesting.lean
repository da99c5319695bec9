import Outline.Proofs.Forest.RoundTrip
import Outline.Proofs.Json.Yields

/-!
How deep a forest lies that was read from bytes.

A reader that is allowed deeper nesting reads the same values, and each level of items has taken two
levels of it. The link of an item takes two more, for itself and its chain.
-/
namespace Outline
set_option autoImplicit false

open Json

namespace Link

variable {n m : Nat}

/-- A chain is a list, for which one level has to be left. -/
theorem yields_readChain (h : n ≤ m) : Yields (fun _ => n ≠ 0) (readChain n) (readChain m) := by
  refine yields_after fun b => yields_ite (fun _ => ?_) fun _ => yields_refuse _
  cases n with
  | zero => exact yields_throw _ _
  | succ n =>
    rw [if_neg (Nat.succ_ne_zero n), if_neg (by omega)]
    refine yields_after fun _ => yields_after fun ids => yields_after fun _ => ?_
    exact yields_pure (Nat.succ_ne_zero n)

theorem yields_readDepth :
    Yields (fun depth => depth ≤ Word.maxUnsigned32) readDepth readDepth := by
  refine (yields_integer 0 Word.maxUnsigned32).map fun i hi => ?_
  omega

/-- What is known of the fields of a link when they were read with that much nesting left. -/
structure Fields.Within (n : Nat) (f : Fields) : Prop where
  depth : ∀ depth ∈ f.depth, depth ≤ Word.maxUnsigned32
  chain : ∀ c ∈ f.chain, n ≠ 0

theorem yields_readField (h : n ≤ m) (name : String) (f : Fields) (hf : f.Within n) :
    Yields (Fields.Within n) (readField n name f) (readField m name f) := by
  -- The first five fields are read alike and say nothing of the nesting.
  have hkept {α : Type} (value : Reader (Option α)) (g : Option α → Fields)
      (hg : ∀ a, (g a).Within n) :
      Yields (Fields.Within n) (do return g (← value)) (do return g (← value)) :=
    yields_after fun a => yields_pure (hg a)
  refine yields_ite (fun _ => hkept _ _ fun _ => ⟨hf.depth, hf.chain⟩) fun _ => ?_
  refine yields_ite (fun _ => hkept _ _ fun _ => ⟨hf.depth, hf.chain⟩) fun _ => ?_
  refine yields_ite (fun _ => hkept _ _ fun _ => ⟨hf.depth, hf.chain⟩) fun _ => ?_
  refine yields_ite (fun _ => hkept _ _ fun _ => ⟨hf.depth, hf.chain⟩) fun _ => ?_
  refine yields_ite (fun _ => hkept _ _ fun _ => ⟨hf.depth, hf.chain⟩) fun _ => ?_
  refine yields_ite (fun _ => ?_) fun _ => yields_ite (fun _ => ?_) fun _ => ?_
  · refine (yields_once _ yields_readDepth).bind fun _ hdepth => ?_
    exact yields_pure ⟨hdepth, hf.chain⟩
  · refine (yields_once _ (yields_readChain h)).bind fun _ hchain => ?_
    exact yields_pure ⟨hf.depth, hchain⟩
  · exact yields_after fun _ => yields_after fun _ => yields_pure hf

/-- What is known of a link whose fields were read with that much nesting left. -/
def Within (n : Nat) (l : Link) : Prop := n ≠ 0 ∧ l.depth ≤ Word.maxUnsigned32

theorem yields_readElements (h : n ≤ m) :
    Yields (Within n) (readElements n) (readElements m) := by
  refine yields_after fun nid => yields_after fun bid => yields_after fun pid => ?_
  refine yields_after fun hasChildren => yields_after fun weight => ?_
  refine (yields_nextElement false yields_readDepth).bind fun depth hdepth => ?_
  refine (yields_nextElement false (yields_readChain h)).bind fun chain hchain => ?_
  exact yields_after fun _ => yields_pure ⟨hchain, hdepth⟩

theorem Fields.Within.of_toLink {f : Fields} (hf : f.Within n) {l : Link}
    (h : f.toLink? = some l) : l.Within n := by
  obtain ⟨nid, bid, pid, hasChildren, weight, depth, chain⟩ := f
  simp only [Fields.toLink?, Option.bind_eq_bind, Option.bind_eq_some_iff, Option.pure_def,
    Option.some.injEq] at h
  obtain ⟨_, _, _, _, _, _, _, _, _, _, depth, hdepth, chain, hchain, rfl⟩ := h
  exact ⟨hf.chain chain hchain, hf.depth depth hdepth⟩

/-- A link is a list or an object that holds its chain, and takes two levels. -/
theorem yields_read (h : n ≤ m) :
    Yields (fun l => 2 ≤ n ∧ l.depth ≤ Word.maxUnsigned32) (read n) (read m) := by
  cases n with
  | zero =>
    refine yields_of_never (yields_after fun b => ?_) _
    exact yields_ite (fun _ => yields_throw _ _) fun _ => yields_refuse _
  | succ n =>
    obtain ⟨m, rfl⟩ : ∃ k, m = k + 1 := ⟨m - 1, by omega⟩
    have hle : n ≤ m := by omega
    have hread : Yields (Within n) (read (n + 1)) (read (m + 1)) := by
      refine yields_after fun b => yields_ite (fun _ => ?_) fun _ => yields_ite (fun _ => ?_)
        fun _ => yields_refuse _
      · exact yields_after fun _ => yields_readElements hle
      · refine yields_after fun _ => ?_
        have hobject : Yields (Fields.Within n) (objectBody (readField n) {})
            (objectBody (readField m) {}) := yields_objectBody ⟨nofun, nofun⟩ (yields_readField hle)
        refine hobject.bind fun f hf => ?_
        cases hlink : f.toLink? with
        | none => exact yields_throw _ _
        | some l => exact yields_pure (hf.of_toLink hlink)
    refine hread.imp fun l hl => ⟨?_, hl.2⟩
    have := hl.1
    omega

end Link

namespace BookForest

variable {n m : Nat}

/-- What is known of a forest that was read with that much nesting left. -/
structure Within (n : Nat) (f : BookForest) : Prop where
  levels : f.height ≠ 0 → 2 * f.height + 2 ≤ n
  depths : f.All fun item => item.link.depth ≤ Word.maxUnsigned32

/-- What is known of a tree whose item and forest below it were read with that much nesting left. -/
structure TreeWithin (n : Nat) (tree : Item × BookForest) : Prop where
  link : 2 ≤ n ∧ tree.1.link.depth ≤ Word.maxUnsigned32
  below : tree.2.Within n

theorem within_ofTrees {ts : List (Item × BookForest)} (h : ∀ t ∈ ts, TreeWithin n t) :
    Within (n + 2) (Forest.ofTrees ts) := by
  induction ts with
  | nil => exact ⟨fun h => absurd rfl h, trivial⟩
  | cons t ts ih =>
    obtain ⟨htree, hrest⟩ := List.forall_mem_cons.1 h
    have hlink := htree.link
    have hbelow := htree.below.levels
    have hlevels := (ih hrest).levels
    refine ⟨fun _ => ?_, hlink.2, htree.below.depths, (ih hrest).depths⟩
    rw [Forest.ofTrees, Forest.height]
    omega

section Trees

variable {link link' : Reader Link} {below below' : Reader BookForest}

/-- What is known of the fields of an item when they were read with that much nesting left. -/
structure Fields.Within (n : Nat) (f : Fields) : Prop where
  link : ∀ l ∈ f.link, 2 ≤ n ∧ l.depth ≤ Word.maxUnsigned32
  below : ∀ g ∈ f.below, g.Within n

theorem yields_readField
    (hlink : Yields (fun l => 2 ≤ n ∧ l.depth ≤ Word.maxUnsigned32) link link')
    (hbelow : Yields (BookForest.Within n) below below') (name : String) (f : Fields)
    (hf : f.Within n) :
    Yields (Fields.Within n) (readField link below name f) (readField link' below' name f) := by
  refine yields_ite (fun _ => ?_) fun _ => yields_ite (fun _ => ?_) fun _ => ?_
  · exact (yields_once _ hlink).bind fun _ h => yields_pure ⟨h, hf.below⟩
  · exact yields_after fun _ => yields_pure ⟨hf.link, hf.below⟩
  refine yields_ite (fun _ => ?_) fun _ => yields_ite (fun _ => ?_) fun _ => ?_
  · exact yields_after fun _ => yields_pure ⟨hf.link, hf.below⟩
  · exact (yields_once _ hbelow).bind fun _ h => yields_pure ⟨hf.link, h⟩
  · exact yields_after fun _ => yields_after fun _ => yields_pure hf

theorem Fields.Within.of_toTree {f : Fields} (hf : f.Within n) {tree : Item × BookForest}
    (h : f.toTree? = some tree) : TreeWithin n tree := by
  obtain ⟨l, title, active, g⟩ := f
  simp only [Fields.toTree?, Option.bind_eq_bind, Option.bind_eq_some_iff, Option.pure_def,
    Option.some.injEq] at h
  obtain ⟨l, hl, _, _, g, hg, rfl⟩ := h
  exact ⟨hf.link l hl, hf.below g hg⟩

theorem yields_readTree
    (hlink : Yields (fun l => 2 ≤ n ∧ l.depth ≤ Word.maxUnsigned32) link link')
    (hbelow : Yields (Within n) below below') :
    Yields (TreeWithin n) (readTree link below) (readTree link' below') := by
  refine yields_after fun b => yields_ite (fun _ => ?_) fun _ => yields_ite (fun _ => ?_)
    fun _ => yields_refuse _
  · refine yields_after fun _ => (yields_nextElement true hlink).bind fun l hl => ?_
    refine yields_after fun title => yields_after fun active => ?_
    refine (yields_nextElement false hbelow).bind fun g hg => ?_
    exact yields_after fun _ => yields_pure ⟨hl, hg⟩
  · refine yields_after fun _ => ?_
    have hobject : Yields (Fields.Within n) (objectBody (readField link below) {})
        (objectBody (readField link' below') {}) :=
      yields_objectBody ⟨nofun, nofun⟩ (yields_readField hlink hbelow)
    refine hobject.bind fun f hf => ?_
    cases htree : f.toTree? with
    | none => exact yields_throw _ _
    | some tree => exact yields_pure (hf.of_toTree htree)

end Trees

/-- A reader that is allowed deeper nesting reads the same forests, and each level of items took two
levels of the nesting that was allowed. -/
theorem yields_read (n : Nat) : ∀ m, n ≤ m → Yields (Within n) (read n) (read m) := by
  induction n using Nat.strongRecOn with
  | ind n ih =>
    intro m h
    obtain _ | _ | n := n
    · exact yields_throw _ _
    · have hnone (element : Reader (Item × BookForest)) :
          Yields (Within 1) (read 1) (Forest.ofTrees <$> listOf element) := by
        refine (yields_listOf (p := fun _ => False) (yields_throw _ element)).map fun ts hts => ?_
        rw [List.eq_nil_iff_forall_not_mem.2 hts]
        exact ⟨fun h => absurd rfl h, trivial⟩
      obtain _ | _ | m := m
      · exact absurd h (by decide)
      · exact hnone _
      · exact hnone _
    · obtain ⟨m, rfl⟩ : ∃ k, m = k + 2 := ⟨m - 2, by omega⟩
      have hle : n ≤ m := by omega
      have htree := yields_readTree (Link.yields_read hle) (ih n (by omega) m hle)
      exact (yields_listOf htree).map fun ts hts => within_ofTrees hts

theorem read_of_decode? {bs : Bytes} {f : BookForest} (h : decode? bs = some f) :
    ∃ rest, read nestingLimit bs = .ok (f, rest) := by
  unfold decode? readAll at h
  cases hread : read nestingLimit bs with
  | error fault => simp [hread] at h
  | ok found =>
    obtain ⟨g, rest⟩ := found
    simp only [hread] at h
    split at h
    · next heq =>
      split at heq
      · cases heq
        cases h
        exact ⟨rest, rfl⟩
      · cases heq
    · cases h

/-- What bytes encode has at most 62 levels. -/
theorem decode?_within {bs : Bytes} {f : BookForest} (h : decode? bs = some f) :
    f.height ≤ 62 ∧ f.All fun item => item.link.depth ≤ Word.maxUnsigned32 := by
  obtain ⟨rest, hread⟩ := read_of_decode? h
  obtain ⟨hlevels, hdepths⟩ := (yields_read nestingLimit _ (Nat.le_refl _) bs f rest hread).1
  refine ⟨?_, hdepths⟩
  unfold nestingLimit at hlevels
  omega

/-- A forest of more than 62 levels is not read back. -/
theorem decode?_encode_of_lt {f : BookForest}
    (hd : f.All fun item => item.link.depth ≤ Word.maxUnsigned32) (h : 62 < f.height) :
    decode? f.encode = none := by
  refine Option.eq_none_iff_forall_ne_some.2 fun g hg => ?_
  obtain ⟨rest, hread⟩ := read_of_decode? hg
  -- With enough nesting the bytes are read as the forest itself, so no other one is read from them.
  have hle : nestingLimit ≤ 2 * f.height + 3 := by
    unfold nestingLimit
    omega
  have hdeep := (yields_read nestingLimit _ hle _ g rest hread).2
  have hself := takes_read _ f hd (Nat.le_refl _) [] (by intro b hb; cases hb)
  rw [List.append_nil] at hself
  have hfg : g = f := by
    rw [hself] at hdeep
    cases hdeep
    rfl
  have := (decode?_within hg).1
  rw [hfg] at this
  omega

end BookForest
end Outline
