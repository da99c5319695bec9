import Outline.Forest.Decode
import Outline.Forest.Encode
import Outline.Proofs.Forest.Built
import Outline.Proofs.Json.Containers

/-!
Forests are read back from their bytes.

An item lies inside a list and is an object, so each level of items takes two levels of nesting, and
its link and the chain of that two more.
-/
namespace Outline
set_option autoImplicit false

open Json

namespace Link

theorem takes_readId (id : PageId) : Takes readId (writeInt id.toInt) id := by
  have h1 := id.le_toInt
  have h2 := id.toInt_lt
  have h : Takes (integer Word.min64 Word.max64) (writeInt id.toInt) id.toInt :=
    takes_integer (Int.le_refl _) (by decide) h1 (by simp only [Word.max64]; omega)
  have hmap := h.map (g := Int64.ofInt)
  rwa [Int64.ofInt_toInt] at hmap

theorem takes_readWeight (weight : Int32) :
    Takes readWeight (writeInt weight.toInt) weight := by
  have h1 := weight.le_toInt
  have h2 := weight.toInt_lt
  have h : Takes (integer Word.min32 Word.max32) (writeInt weight.toInt) weight.toInt :=
    takes_integer (by decide) (by decide) h1 (by simp only [Word.max32]; omega)
  have hmap := h.map (g := Int32.ofInt)
  rwa [Int32.ofInt_toInt] at hmap

theorem takes_readDepth {depth : Nat} (h : depth ≤ Word.maxUnsigned32) :
    Takes readDepth (writeInt depth) depth := by
  have hint : Takes (integer 0 Word.maxUnsigned32) (writeInt depth) depth :=
    takes_integer (by decide) (by decide) (by omega) (by omega)
  exact hint.map (g := Int.toNat)

theorem starts_writeInt (i : Int) : Starts (writeInt i) := by
  cases i with
  | ofNat n =>
    obtain ⟨d, ds, hds, _⟩ := digits_head n
    have hd := digitByte_spec (digits_lt n d (by rw [hds]; exact List.mem_cons_self))
    rw [show writeInt (.ofNat n) = _ from writeInt_ofNat n, hds]
    exact ⟨digitByte d, ds.map digitByte, rfl, hd.2.2.2.1, hd.2.2.2.2.2⟩
  | negSucc n =>
    rw [writeInt_negSucc]
    exact ⟨0x2D, _, rfl, by decide, by decide⟩

theorem nextElement_of_has {α : Type} {first : Bool} {element : Reader α} {bs rest tail : Bytes}
    {a : α} (h : hasElement first bs = .ok (true, rest)) (ha : element rest = .ok (a, tail)) :
    nextElement first element bs = .ok (a, tail) := by
  unfold nextElement
  rw [reader_bind_of_ok h, if_pos rfl, ha]

theorem readIds_continued (ids : List PageId) (rest : Bytes) :
    readIds ids.length false (continued (ids.map fun id => writeInt id.toInt) ++ 0x5D :: rest) =
      .ok (ids, 0x5D :: rest) := by
  induction ids with
  | nil => rfl
  | cons id ids ih =>
    have hsplit : continued ((id :: ids).map fun id => writeInt id.toInt) ++ 0x5D :: rest =
        0x2C :: (writeInt id.toInt ++
          (continued (ids.map fun id => writeInt id.toInt) ++ 0x5D :: rest)) := by
      simp [continued]
    rw [hsplit, List.length_cons, readIds, reader_bind_of_ok (nextElement_of_has
      (hasElement_next ((starts_writeInt _).append _))
      (takes_readId id _ (follows_continued _ _ _ (.inl rfl)))), reader_bind_of_ok ih]
    rfl

theorem takes_readChain (c : Chain) (nesting : Nat) :
    Takes (readChain (nesting + 1)) (writeList (c.toList.map fun id => writeInt id.toInt)) c := by
  intro rest _
  obtain ⟨ids, hlen⟩ := c
  cases ids with
  | nil => exact absurd hlen (by decide)
  | cons id ids =>
    have hsplit : writeList ((id :: ids).map fun id => writeInt id.toInt) ++ rest =
        0x5B :: (writeInt id.toInt ++
          (continued (ids.map fun id => writeInt id.toInt) ++ 0x5D :: rest)) := by
      rw [writeList, List.map_cons, separated_cons]
      simp
    have hlen' : maxDepth = ids.length + 1 := hlen.symm
    have hids : readIds maxDepth true (writeInt id.toInt ++
        (continued (ids.map fun id => writeInt id.toInt) ++ 0x5D :: rest)) =
        .ok (id :: ids, 0x5D :: rest) := by
      rw [hlen', readIds, reader_bind_of_ok (nextElement_of_has
        (hasElement_first ((starts_writeInt _).append _))
        (takes_readId id _ (follows_continued _ _ _ (.inl rfl)))),
        reader_bind_of_ok (readIds_continued ids rest)]
      rfl
    rw [hsplit]
    unfold readChain
    rw [reader_bind_of_ok (peekValue_cons (by decide)), if_pos rfl, if_neg (Nat.succ_ne_zero _)]
    refine (reader_bind_of_ok (drop_cons _ _)).trans ?_
    rw [reader_bind_of_ok hids, reader_bind_of_ok (closeList_cons rest)]
    exact congrArg (fun c => Except.ok (c, rest)) (Levels.ofList_toList 0 ⟨id :: ids, hlen⟩)

/-- The members of a link. -/
def written (l : Link) : List (String × Bytes) :=
  [("nid", writeInt l.nid.toInt), ("bid", writeInt l.bid.toInt), ("pid", writeInt l.pid.toInt),
    ("has_children", writeTruth l.hasChildren), ("weight", writeInt l.weight.toInt),
    ("depth", writeInt l.depth),
    ("parents", writeList (l.chain.toList.map fun id => writeInt id.toInt))]

/-- A link is read back. -/
theorem takes_read (l : Link) (hd : l.depth ≤ Word.maxUnsigned32) (nesting : Nat) :
    Takes (read (nesting + 2)) l.encode l := by
  intro rest _
  have hmembers : TakesMembers (readField (nesting + 1)) {} l.written
      ⟨l.nid, l.bid, l.pid, l.hasChildren, l.weight, l.depth, l.chain⟩ := by
    refine ⟨_, (takes_once (takes_readId l.nid)).bind_pure, ?_⟩
    refine ⟨_, (takes_once (takes_readId l.bid)).bind_pure, ?_⟩
    refine ⟨_, (takes_once (takes_readId l.pid)).bind_pure, ?_⟩
    refine ⟨_, (takes_once (takes_truth l.hasChildren)).bind_pure, ?_⟩
    refine ⟨_, (takes_once (takes_readWeight l.weight)).bind_pure, ?_⟩
    refine ⟨_, (takes_once (takes_readDepth hd)).bind_pure, ?_⟩
    refine ⟨_, (takes_once (takes_readChain l.chain nesting)).bind_pure, ?_⟩
    rfl
  have hsplit : l.encode ++ rest =
      0x7B :: (separated (writeMembers l.written) ++ 0x7D :: rest) := by
    simp [encode, writeObject, writeMembers, written]
  rw [hsplit]
  rw [read, reader_bind_of_ok (peekValue_cons (by decide)), if_neg (by decide), if_pos rfl]
  refine (reader_bind_of_ok (drop_cons _ _)).trans ?_
  exact (reader_bind_of_ok (objectBody_write l.written _ hmembers rest)).trans rfl

end Link

namespace BookForest

/-- The members of an item, what is below it being written already. -/
def written (item : Item) (below : Bytes) : List (String × Bytes) :=
  [("link", item.link.encode)] ++
    (item.title.map fun title => ("title", writeText title)).toList ++
    [("in_active_trail", writeTruth item.active), ("below", below)]

theorem encode_item (item : Item) (below : Bytes) :
    item.encode below = 0x7B :: (separated (writeMembers (written item below)) ++ [0x7D]) := by
  unfold Item.encode written writeMembers
  cases item.title <;> rfl

theorem takes_readTree {link : Reader Link} {readBelow : Reader BookForest} {item : Item}
    {below : BookForest} (hlink : Takes link item.link.encode item.link)
    (hbelow : Takes readBelow below.encode below) :
    Takes (readTree link readBelow) (item.encode below.encode) (item, below) := by
  intro rest _
  obtain ⟨l, title, active⟩ := item
  have hmembers :
      TakesMembers (readField link readBelow) {} (written ⟨l, title, active⟩ below.encode)
      ⟨some l, title.map some, some active, some below⟩ := by
    refine ⟨_, (takes_once hlink).bind_pure, ?_⟩
    cases title with
    | none =>
      refine ⟨_, (takes_once (takes_truth active)).bind_pure, ?_⟩
      exact ⟨_, (takes_once hbelow).bind_pure, rfl⟩
    | some title =>
      refine ⟨_, (takes_once (takes_optionalText title)).bind_pure, ?_⟩
      refine ⟨_, (takes_once (takes_truth active)).bind_pure, ?_⟩
      exact ⟨_, (takes_once hbelow).bind_pure, rfl⟩
  rw [encode_item, List.cons_append, List.append_assoc, List.singleton_append]
  unfold readTree
  rw [reader_bind_of_ok (peekValue_cons (by decide)), if_neg (by decide), if_pos rfl]
  refine (reader_bind_of_ok (drop_cons _ _)).trans ?_
  refine (reader_bind_of_ok (objectBody_write _ _ hmembers rest)).trans ?_
  cases title <;> rfl

/-- The trees of a forest with their bytes. -/
def writtenTrees (f : BookForest) : List (Bytes × (Item × BookForest)) :=
  f.trees.map fun tree => (tree.1.encode tree.2.encode, tree)

theorem encode_eq (f : BookForest) : f.encode = writeList (f.writtenTrees.map (·.1)) := by
  have htrees : ∀ f : BookForest, f.encodeTrees = f.writtenTrees.map (·.1) := by
    intro f
    induction f with
    | nil => rfl
    | cons item below rest _ ih =>
      simp only [encodeTrees, ih, writtenTrees, Forest.trees, List.map_cons, encode]
  rw [encode, htrees]

theorem mem_trees {p : Item → Prop} {f : BookForest} (hp : f.All p) {tree : Item × BookForest}
    (h : tree ∈ f.trees) : p tree.1 ∧ tree.2.All p ∧ tree.2.height + 1 ≤ f.height := by
  induction f with
  | nil => cases h
  | cons item below rest _ ih =>
    obtain ⟨hitem, hbelow, hrest⟩ := hp
    rw [Forest.height]
    rcases List.mem_cons.1 h with rfl | h
    · exact ⟨hitem, hbelow, Nat.le_max_left _ _⟩
    · obtain ⟨h1, h2, h3⟩ := ih hrest h
      exact ⟨h1, h2, Nat.le_trans h3 (Nat.le_max_right _ _)⟩

theorem starts_encode (item : Item) (below : Bytes) : Starts (item.encode below) := by
  rw [encode_item]
  exact ⟨0x7B, _, rfl, by decide, by decide⟩

/-- A forest is read back when its levels fit into the nesting that is allowed. -/
theorem takes_read (nesting : Nat) : ∀ f : BookForest,
    (f.All fun item => item.link.depth ≤ Word.maxUnsigned32) → 2 * f.height + 3 ≤ nesting →
      Takes (read nesting) f.encode f := by
  induction nesting using Nat.strongRecOn with
  | ind nesting ih =>
    intro f hd hfit
    obtain ⟨k, rfl⟩ : ∃ k, nesting = k + 2 := ⟨nesting - 2, by omega⟩
    have hlist : Takes (listOf (readTree (Link.read k) (read k))) (writeList
        (f.writtenTrees.map (·.1))) (f.writtenTrees.map (·.2)) := by
      apply takes_listOf
      intro v hv
      obtain ⟨tree, htree, rfl⟩ := List.mem_map.1 hv
      obtain ⟨hdepth, hbelow, hheight⟩ := mem_trees hd htree
      refine ⟨starts_encode _ _, takes_readTree ?_ (ih k (by omega) tree.2 hbelow (by omega))⟩
      obtain ⟨j, rfl⟩ : ∃ j, k = j + 2 := ⟨k - 2, by omega⟩
      exact Link.takes_read tree.1.link hdepth j
    have htrees : f.writtenTrees.map (·.2) = f.trees := by
      simp [writtenTrees, Function.comp_def]
    have hforest := hlist.map (g := Forest.ofTrees)
    rw [htrees, Forest.ofTrees_trees, ← encode_eq] at hforest
    rw [read]
    exact hforest

/-- A forest of at most 62 levels is the one that its bytes encode. -/
theorem decode?_encode (f : BookForest)
    (hd : f.All fun item => item.link.depth ≤ Word.maxUnsigned32) (hfit : f.height ≤ 62) :
    decode? f.encode = some f := by
  have hread := takes_read nestingLimit f hd (by simp only [nestingLimit]; omega) []
    (by intro b hb; cases hb)
  rw [List.append_nil] at hread
  rw [decode?, readAll, hread]
  rfl

/-- A forest made from rows that lie at levels is the one that its bytes encode. -/
theorem decode?_encode_build {rows : List Link}
    (h : ∀ l ∈ rows, 0 < l.depth ∧ l.depth ≤ maxDepth) (active : PageId → Bool) (minDepth : Nat) :
    decode? (build active minDepth rows).encode = some (build active minDepth rows) := by
  have hsmall : maxDepth ≤ Word.maxUnsigned32 ∧ maxDepth ≤ 62 := by decide
  apply decode?_encode
  · exact all_build minDepth fun l hl => Nat.le_trans (h l hl).2 hsmall.1
  · exact Nat.le_trans (height_build_le h) hsmall.2

end BookForest

end Outline
