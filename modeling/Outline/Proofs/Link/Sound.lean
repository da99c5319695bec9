import Mathlib.Data.List.Basic
import Outline.Link.Position

/-!
Sound links, and the path that determines each of them.

A valid link may still have a chain with a hole in it, a parent that is not the last page above, or
itself for a parent. A sound one has none of these: it is the link along its path. Whatever is said
here about sound links is therefore a statement about lists of page ids.
-/
namespace Outline
set_option autoImplicit false

namespace Chain

theorem toList_ofList {ids : List PageId} (h : ids.length ≤ maxDepth) :
    (ofList ids).toList = ids ++ List.replicate (maxDepth - ids.length) 0 := by
  rw [ofList, Levels.toList_ofList, List.take_append, List.take_of_length_le h,
    List.take_replicate, Nat.min_eq_left (by omega)]

/-- Zeros at the end of a list of ids make no difference to its chain. -/
theorem ofList_append_zeros (ids : List PageId) (k : Nat) :
    ofList (ids ++ List.replicate k 0) = ofList ids := by
  apply Levels.ext
  simp only [ofList, Levels.toList_ofList, List.append_assoc, List.replicate_append_replicate,
    List.take_append, List.take_replicate]
  congr 2
  omega

/-- A chain that holds zeros from some level on is the chain of what stands before. -/
theorem eq_ofList_take {c : Chain} {k : Nat} (h : ∀ id ∈ c.toList.drop k, id = 0) :
    c = ofList (c.toList.take k) := by
  have hz : c.toList.drop k = List.replicate (c.toList.drop k).length 0 :=
    List.eq_replicate_iff.2 ⟨rfl, h⟩
  calc c = ofList c.toList := (Levels.ofList_toList 0 c).symm
    _ = ofList (c.toList.take k ++ c.toList.drop k) := by rw [List.take_append_drop]
    _ = ofList (c.toList.take k) := by rw [hz, ofList_append_zeros]

end Chain

namespace Link

theorem path_length {l : Link} (h : l.depth ≤ maxDepth) : l.path.length = l.depth := by
  rw [path, List.length_take, l.chain.length_toList, Nat.min_eq_left h]

/-- What it takes for a link to be valid. -/
theorem valid_iff {l : Link} :
    l.Valid ↔ 0 < l.nid ∧ (l.depth ≠ 0 ∧ l.depth ≤ maxDepth) ∧ l.atLevel l.depth = l.nid ∧
      (∀ id ∈ l.chain.toList.drop l.depth, id = 0) ∧ l.hasRootShape = true := by
  have hz : l.unpaddedLevel? = none ↔ ∀ id ∈ l.chain.toList.drop l.depth, id = 0 := by
    simp [unpaddedLevel?, List.findIdx?_eq_none_iff]
  unfold Valid fault?
  split
  · next h => simp [Int64.not_lt.2 h]
  · next h =>
    rw [Int64.not_le] at h
    split
    · next hd => simp; omega
    · next hd =>
      split
      · next ht => simp [ht]
      · next ht =>
        have hd' : l.depth ≠ 0 ∧ l.depth ≤ maxDepth := by omega
        cases hu : l.unpaddedLevel? with
        | some level =>
          rw [← hz, hu]
          simp
        | none =>
          rw [← hz, hu]
          simp [h, hd', Decidable.not_not.1 ht]

/-- A link whose depth, chain, parent and book all say the same. -/
structure Sound (l : Link) : Prop where
  valid : l.Valid
  positive : ∀ id ∈ l.path, 0 < id
  book : l.bid = l.atLevel 1
  parent : 1 < l.depth → l.atLevel (l.depth - 1) = l.pid
  other : l.pid ≠ l.nid

/-- The link of the page at the end of a path. -/
def along (path : List PageId) (hasChildren : Bool) (weight : Int32) : Link where
  nid := path.getLast?.getD 0
  bid := path.head?.getD 0
  pid := path.dropLast.getLast?.getD 0
  hasChildren := hasChildren
  weight := weight
  depth := path.length
  chain := Chain.ofList path

/-- Down to its own level, the levels of a link are its path. -/
theorem atLevel_succ {l : Link} {k : Nat} (h : k < l.depth) :
    l.atLevel (k + 1) = (l.path[k]?).getD 0 := by
  rw [atLevel, path, List.getElem?_take_of_lt h]

namespace Sound

variable {l : Link}

theorem nid_pos (h : l.Sound) : 0 < l.nid := (valid_iff.1 h.valid).1

theorem nid_ne_zero (h : l.Sound) : l.nid ≠ 0 := (Int64.ne_of_lt h.nid_pos).symm

theorem depth_pos (h : l.Sound) : 0 < l.depth := Nat.pos_of_ne_zero (valid_iff.1 h.valid).2.1.1

theorem depth_le (h : l.Sound) : l.depth ≤ maxDepth := (valid_iff.1 h.valid).2.1.2

theorem length_path (h : l.Sound) : l.path.length = l.depth := path_length h.depth_le

theorem path_ne_nil (h : l.Sound) : l.path ≠ [] := by
  have := h.depth_pos
  rw [← List.length_pos_iff, h.length_path]
  omega

theorem chain_eq (h : l.Sound) : l.chain = Chain.ofList l.path :=
  Chain.eq_ofList_take (valid_iff.1 h.valid).2.2.2.1

theorem toList_chain (h : l.Sound) :
    l.chain.toList = l.path ++ List.replicate (maxDepth - l.path.length) 0 := by
  have hle : l.path.length ≤ maxDepth := by
    rw [h.length_path]
    exact h.depth_le
  rw [← Chain.toList_ofList hle, ← h.chain_eq]

/-- The pages around a page are the top and pages of its path. -/
theorem mem_trail (h : l.Sound) {id : PageId} (hid : id ∈ l.trail) : id = 0 ∨ id ∈ l.path := by
  rw [trail, List.mem_cons, List.mem_filter, bne_iff_ne] at hid
  rcases hid with hz | ⟨hid, hne⟩
  · exact .inl hz
  · have hchain := List.mem_of_mem_take hid
    rw [h.toList_chain, List.mem_append, List.mem_replicate] at hchain
    rcases hchain with hpath | ⟨_, hz⟩
    · exact .inr hpath
    · exact absurd hz hne

/-- The pages down to the eighth level of a path are around its page. -/
theorem mem_trail_of_mem {up : List PageId} (h : l.Sound) (hup : up <+: l.path)
    (hlen : up.length < maxDepth) {id : PageId} (hid : id ∈ up) : id ∈ l.trail := by
  have hchain : up <+: l.chain.toList.take (maxDepth - 1) :=
    List.prefix_take_iff.2 ⟨hup.trans (List.take_prefix _ _), by omega⟩
  have hne : id ≠ 0 := (Int64.ne_of_lt (h.positive id (hup.subset hid))).symm
  refine List.mem_cons_of_mem _ (List.mem_filter.2 ⟨hchain.subset hid, ?_⟩)
  rwa [bne_iff_ne]

/-- The path of a page ends with the page. -/
theorem getLast_path (h : l.Sound) : l.path.getLast?.getD 0 = l.nid := by
  have hp := h.depth_pos
  have ht := (valid_iff.1 h.valid).2.2.1
  obtain ⟨k, hk⟩ : ∃ k, l.depth = k + 1 := ⟨l.depth - 1, by omega⟩
  rw [hk, atLevel_succ (by omega)] at ht
  rw [← ht, List.getLast?_eq_getElem?, h.length_path, hk,
    Nat.add_sub_cancel]

theorem head_path (h : l.Sound) : l.path.head?.getD 0 = l.bid := by
  rw [h.book, atLevel_succ h.depth_pos, List.head?_eq_getElem?]

/-- The path of a page starts with its book. -/
theorem bid_starts (h : l.Sound) : [l.bid] <+: l.path := by
  have hhead := h.head_path
  cases hpath : l.path with
  | nil => exact absurd hpath h.path_ne_nil
  | cons id rest =>
    rw [hpath] at hhead
    exact ⟨rest, by rw [← hhead]; rfl⟩

/-- The path of a page ends with its parent and itself. -/
theorem getLast_dropLast (h : l.Sound) : l.path.dropLast.getLast?.getD 0 = l.pid := by
  have hp := h.depth_pos
  have hr := (valid_iff.1 h.valid).2.2.2.2
  by_cases hd : l.depth = 1
  · have hpid : l.pid = 0 := by
      by_contra hne
      simp [hasRootShape, hne, hd] at hr
    have hlen : l.path.dropLast = [] := by
      rw [← List.length_eq_zero_iff, List.length_dropLast, h.length_path, hd]
    rw [hlen, hpid]
    rfl
  · obtain ⟨k, hk⟩ : ∃ k, l.depth = k + 2 := ⟨l.depth - 2, by omega⟩
    have hq := h.parent (by omega)
    rw [hk, show k + 2 - 1 = k + 1 from rfl, atLevel_succ (by omega)] at hq
    rw [← hq, List.getLast?_eq_getElem?, List.length_dropLast,
      h.length_path, hk, List.dropLast_eq_take, List.getElem?_take_of_lt (by
        rw [h.length_path]; omega)]
    rfl

theorem path_of_top (h : l.Sound) (hpid : l.pid = 0) : l.path = [l.nid] := by
  have hlast := h.getLast_dropLast
  have hup : l.path.dropLast = [] := by
    by_contra hne
    rw [hpid, List.getLast?_eq_some_getLast hne, Option.getD_some] at hlast
    have hpos := h.positive _ (List.dropLast_subset _ (List.getLast_mem hne))
    rw [hlast] at hpos
    exact absurd hpos Int64.lt_irrefl
  have hpath := List.dropLast_append_getLast h.path_ne_nil
  rw [hup, List.nil_append] at hpath
  have hnid := h.getLast_path
  rw [← hpath] at hnid ⊢
  exact congrArg (fun id => [id]) hnid

theorem bid_of_top (h : l.Sound) (hpid : l.pid = 0) : l.bid = l.nid := by
  rw [← h.head_path, h.path_of_top hpid]
  rfl

/-- A page belongs to the book of those that its path starts with. -/
theorem bid_of_starts {p : Link} (h : l.Sound) (hp : p.Sound) (hpath : p.path <+: l.path) :
    p.bid = l.bid := by
  obtain ⟨below, hbelow⟩ := hpath
  rw [← h.head_path, ← hp.head_path, ← hbelow, List.head?_append_of_ne_nil _ hp.path_ne_nil]

theorem bid_of_path {p : Link} (h : l.Sound) (hp : p.Sound) {nid : PageId}
    (hpath : l.path = p.path ++ [nid]) : l.bid = p.bid := by
  refine (h.bid_of_starts hp ?_).symm
  rw [hpath]
  exact List.prefix_append _ _

/-- A sound link is determined by its path, its flag and its weight. -/
theorem eq_along (h : l.Sound) : l = along l.path l.hasChildren l.weight := by
  have h1 := h.getLast_path
  have h2 := h.head_path
  have h3 := h.getLast_dropLast
  have h4 := h.length_path
  have h5 := h.chain_eq
  cases l
  simp only [along, mk.injEq]
  exact ⟨h1.symm, h2.symm, h3.symm, trivial, trivial, h4.symm, h5⟩

end Sound

section Along

variable {path : List PageId} (hasChildren : Bool) (weight : Int32)

theorem path_along (hle : path.length ≤ maxDepth) :
    (along path hasChildren weight).path = path := by
  simp [Link.path, along, Chain.toList_ofList hle]

theorem atLevel_along {k : Nat} (hle : path.length ≤ maxDepth) (hk : k < path.length) :
    (along path hasChildren weight).atLevel (k + 1) = (path[k]?).getD 0 := by
  rw [atLevel_succ (show k < (along path hasChildren weight).depth from hk), path_along _ _ hle]

/-- The last page above the end of a path, for a path that does not start there. -/
theorem parent_along (hle : path.length ≤ maxDepth) (h : 1 < path.length) :
    (along path hasChildren weight).atLevel (path.length - 1) =
      (along path hasChildren weight).pid := by
  obtain ⟨k, hk⟩ : ∃ k, path.length = k + 2 := ⟨path.length - 2, by omega⟩
  have hpid : (along path hasChildren weight).pid = (path[k]?).getD 0 := by
    change path.dropLast.getLast?.getD 0 = _
    rw [List.getLast?_eq_getElem?, List.length_dropLast, hk, List.dropLast_eq_take,
      List.getElem?_take_of_lt (by omega)]
    rfl
  rw [hpid, hk, show k + 2 - 1 = k + 1 from rfl, atLevel_along _ _ hle (by omega)]

theorem pid_along_pos (hpos : ∀ id ∈ path, 0 < id) (h : 1 < path.length) :
    0 < (along path hasChildren weight).pid := by
  have hne : path.dropLast ≠ [] := by
    rw [← List.length_pos_iff, List.length_dropLast]
    omega
  rw [along, List.getLast?_eq_some_getLast hne]
  exact hpos _ (List.dropLast_subset path (List.getLast_mem hne))

theorem hasRootShape_along (hne : path ≠ []) (hle : path.length ≤ maxDepth)
    (hpos : ∀ id ∈ path, 0 < id) : (along path hasChildren weight).hasRootShape = true := by
  have hlen : 0 < path.length := List.length_pos_iff.2 hne
  by_cases h1 : path.length = 1
  · obtain ⟨id, rfl⟩ := List.length_eq_one_iff.1 h1
    simp [hasRootShape, along]
  · have hpid := Int64.ne_of_lt (pid_along_pos hasChildren weight hpos (by omega))
    have hbook := atLevel_along hasChildren weight hle hlen
    simp only [hasRootShape, beq_iff_eq, if_neg hpid.symm, hbook]
    simp [along, List.head?_eq_getElem?, h1]

/-- The link along a path of one to nine pages is sound, unless the last two are the same. -/
theorem sound_along (hne : path ≠ []) (hle : path.length ≤ maxDepth) (hpos : ∀ id ∈ path, 0 < id)
    (hother : (along path hasChildren weight).pid ≠ (along path hasChildren weight).nid) :
    (along path hasChildren weight).Sound := by
  have hlen : 0 < path.length := List.length_pos_iff.2 hne
  have hlast : (along path hasChildren weight).nid = path.getLast hne := by
    simp [along, List.getLast?_eq_some_getLast hne]
  have htail : (along path hasChildren weight).atLevel path.length = path.getLast hne := by
    obtain ⟨k, hk⟩ : ∃ k, path.length = k + 1 := ⟨path.length - 1, by omega⟩
    rw [hk, atLevel_along _ _ hle (by omega), List.getLast_eq_getElem,
      List.getElem?_eq_getElem (by omega)]
    simp [hk]
  have hpad : ∀ id ∈ (along path hasChildren weight).chain.toList.drop path.length, id = 0 := by
    intro id hid
    rw [along, Chain.toList_ofList hle, List.drop_append_of_le_length (Nat.le_refl _),
      List.drop_length, List.nil_append] at hid
    exact (List.mem_replicate.1 hid).2
  constructor
  · refine valid_iff.2 ⟨?_, ⟨Nat.ne_of_gt hlen, hle⟩, htail.trans hlast.symm, hpad,
      hasRootShape_along hasChildren weight hne hle hpos⟩
    rw [hlast]
    exact hpos _ (List.getLast_mem hne)
  · rw [path_along _ _ hle]
    exact hpos
  · rw [atLevel_along _ _ hle hlen, along, List.head?_eq_getElem?]
  · exact parent_along hasChildren weight hle
  · exact hother

end Along

end Link
end Outline
