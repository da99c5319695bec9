import Outline.Manager.Arrange
import Outline.Proofs.Link.Sound

/-!
Placing and shifting sound links.

A new root lies along its own id, a new child along its parent's path and its own id, and a page
below one that has moved keeps what its path had below that one.
-/
namespace Outline
set_option autoImplicit false

namespace Link

/-- A link lies within another when it belongs to the same book and its path starts with the
other's. -/
def LiesWithin (l top : Link) : Prop := l.bid = top.bid ∧ top.path <+: l.path

instance (l top : Link) : Decidable (l.LiesWithin top) := inferInstanceAs (Decidable (_ ∧ _))

/-- The link of a page below one that has moved. -/
def rehang (l old moved : Link) : Link :=
  along (moved.path ++ l.path.drop old.depth) l.hasChildren l.weight

section Along

variable {l parent : Link}

theorem Sound.nid_mem_path (h : l.Sound) : l.nid ∈ l.path := by
  rw [← h.getLast_path, List.getLast?_eq_some_getLast h.path_ne_nil]
  exact List.getLast_mem h.path_ne_nil

/-- A page below a parent lies along the parent's path and its own id. -/
theorem Sound.along_child (h : parent.Sound) (nid : PageId) (hasChildren : Bool) (weight : Int32) :
    along (parent.path ++ [nid]) hasChildren weight =
      { nid := nid
        bid := parent.bid
        pid := parent.nid
        hasChildren := hasChildren
        weight := weight
        depth := parent.depth + 1
        chain := Chain.ofList (parent.path ++ [nid]) } := by
  have h1 := h.head_path
  have h2 := h.getLast_path
  have h3 := h.length_path
  simp only [along, mk.injEq, List.getLast?_concat, Option.getD_some, List.dropLast_concat,
    List.length_append, h3, List.length_singleton, and_true, true_and, h2]
  rw [List.head?_append_of_ne_nil _ h.path_ne_nil, h1]

/-- A new child is sound when it is placed at all. -/
theorem Sound.child (h : parent.Sound) (nid : PageId) (weight : Int32) :
    child nid parent weight =
      if maxDepth < parent.depth + 1 then .error (.tooDeep nid (parent.depth + 1))
      else .ok (along (parent.path ++ [nid]) false weight) := by
  rw [h.along_child, Link.child, Position.below]
  split <;> rfl

theorem Sound.sound_child (h : parent.Sound) {nid : PageId} (hn : 0 < nid) (hne : parent.nid ≠ nid)
    (hasChildren : Bool) (weight : Int32) (hd : parent.depth + 1 ≤ maxDepth) :
    (along (parent.path ++ [nid]) hasChildren weight).Sound := by
  apply sound_along
  · simp
  · rw [List.length_append, h.length_path]
    exact hd
  · intro id hid
    rcases List.mem_append.1 hid with hid | hid
    · exact h.positive id hid
    · rw [List.mem_singleton.1 hid]
      exact hn
  · rw [h.along_child]
    exact hne

theorem sound_root {nid : PageId} (hn : 0 < nid) (hasChildren : Bool) (weight : Int32) :
    (along [nid] hasChildren weight).Sound := by
  apply sound_along
  · simp
  · simp [maxDepth]
  · intro id hid
    rw [List.mem_singleton.1 hid]
    exact hn
  · exact Int64.ne_of_lt hn

end Along

section Rehang

variable {old moved l : Link}

theorem LiesWithin.path_eq (h : l.LiesWithin old) (ho : old.Sound) :
    l.path = old.path ++ l.path.drop old.depth := by
  obtain ⟨s, hs⟩ := h.2
  rw [← hs, ← ho.length_path, List.drop_left]

theorem LiesWithin.drop_ne_nil (h : l.LiesWithin old) (ho : old.Sound) (hl : l.Sound)
    (hne : l.nid ≠ old.nid) : l.path.drop old.depth ≠ [] := by
  intro hnil
  have hp := h.path_eq ho
  rw [hnil, List.append_nil] at hp
  apply hne
  rw [← hl.getLast_path, ← ho.getLast_path, hp]

/-- What lies within a link and is not the link's own page lies deeper. -/
theorem LiesWithin.depth_lt (h : l.LiesWithin old) (ho : old.Sound) (hl : l.Sound)
    (hne : l.nid ≠ old.nid) : old.depth < l.depth := by
  have hd := List.length_pos_iff.2 (h.drop_ne_nil ho hl hne)
  rw [List.length_drop, hl.length_path] at hd
  omega

/-- Hanging a page's path under another one changes its book, its depth and its chain only. -/
theorem LiesWithin.rehang_eq (h : l.LiesWithin old) (ho : old.Sound) (hm : moved.Sound)
    (hl : l.Sound) (hn : moved.nid = old.nid) (hne : l.nid ≠ old.nid) :
    l.rehang old moved =
      { l with
        bid := moved.bid
        depth := l.depth + moved.depth - old.depth
        chain := l.chain.rebase moved.path old.depth } := by
  have hd := h.depth_lt ho hl hne
  have hp := h.path_eq ho
  have hs := h.drop_ne_nil ho hl hne
  have hlen := hl.length_path
  have hnid : (moved.path ++ l.path.drop old.depth).getLast?.getD 0 = l.nid := by
    rw [List.getLast?_append_of_ne_nil _ hs, ← hl.getLast_path]
    conv_rhs => rw [hp]
    rw [List.getLast?_append_of_ne_nil _ hs]
  have hbid : (moved.path ++ l.path.drop old.depth).head?.getD 0 = moved.bid := by
    rw [List.head?_append_of_ne_nil _ hm.path_ne_nil, hm.head_path]
  have hpid : (moved.path ++ l.path.drop old.depth).dropLast.getLast?.getD 0 = l.pid := by
    rw [← hl.getLast_dropLast, List.dropLast_append_of_ne_nil hs]
    conv_rhs => rw [hp, List.dropLast_append_of_ne_nil hs]
    rw [List.getLast?_append, List.getLast?_append]
    cases (l.path.drop old.depth).dropLast.getLast? with
    | some id => rfl
    | none => simpa [ho.getLast_path, hm.getLast_path] using hn
  have hchain : l.chain.rebase moved.path old.depth =
      Chain.ofList (moved.path ++ l.path.drop old.depth) := by
    have hle : l.path.length ≤ maxDepth := by rw [hlen]; exact hl.depth_le
    rw [Chain.rebase, hl.chain_eq, Chain.toList_ofList hle,
      List.drop_append_of_le_length (by omega), ← List.append_assoc, Chain.ofList_append_zeros]
  have hdepth : (moved.path ++ l.path.drop old.depth).length =
      l.depth + moved.depth - old.depth := by
    rw [List.length_append, List.length_drop, hlen, hm.length_path]
    omega
  rw [rehang, along, hnid, hbid, hpid, hdepth, hchain]

/-- Shifting a page below one that has moved hangs the rest of its path under the new one. -/
theorem LiesWithin.shifted (h : l.LiesWithin old) (ho : old.Sound) (hm : moved.Sound)
    (hl : l.Sound) (hn : moved.nid = old.nid) (hne : l.nid ≠ old.nid) :
    Arrange.shifted old moved l = .ok (l.rehang old moved) := by
  have hd := h.depth_lt ho hl hne
  rw [Arrange.shifted, if_neg (by omega), h.rehang_eq ho hm hl hn hne]

theorem path_rehang (hm : moved.Sound) (hl : l.Sound)
    (hle : moved.depth + (l.depth - old.depth) ≤ maxDepth) :
    (l.rehang old moved).path = moved.path ++ l.path.drop old.depth := by
  apply path_along
  rw [List.length_append, List.length_drop, hm.length_path, hl.length_path]
  exact hle

theorem LiesWithin.sound_rehang (h : l.LiesWithin old) (ho : old.Sound) (hm : moved.Sound)
    (hl : l.Sound) (hn : moved.nid = old.nid) (hne : l.nid ≠ old.nid)
    (hle : moved.depth + (l.depth - old.depth) ≤ maxDepth) : (l.rehang old moved).Sound := by
  have heq := h.rehang_eq ho hm hl hn hne
  apply sound_along
  · simp [hm.path_ne_nil]
  · rw [List.length_append, List.length_drop, hm.length_path, hl.length_path]
    exact hle
  · intro id hid
    rcases List.mem_append.1 hid with hid | hid
    · exact hm.positive id hid
    · exact hl.positive id (List.mem_of_mem_drop hid)
  · change (l.rehang old moved).pid ≠ (l.rehang old moved).nid
    rw [heq]
    exact hl.other

end Rehang

end Link
end Outline
