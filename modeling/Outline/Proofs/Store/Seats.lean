import Outline.Proofs.Store.Holds

/-!
The seats of pages: under which parent each page lies, and with which weight among its siblings.

The book, the depth, the chain and the mark of a page follow from the seats of a whole table. Two
whole tables with the same seats are therefore one table.
-/
namespace Outline
set_option autoImplicit false

namespace Table

variable {t t' : Table} {k k' l : Link} {pid x : PageId} {weight : Int32}

/-- The parent and the weight of a page, if it is stored. -/
def seat? (t : Table) (nid : PageId) : Option (PageId × Int32) :=
  (t.stored? nid).map fun l => (l.pid, l.weight)

theorem seat?_of_stored? (hl : t.stored? x = some l) : t.seat? x = some (l.pid, l.weight) := by
  rw [seat?, hl, Option.map_some]

theorem seat?_eq_some_iff :
    t.seat? x = some (pid, weight) ↔
      ∃ l, t.stored? x = some l ∧ l.pid = pid ∧ l.weight = weight := by
  simp only [seat?, Option.map_eq_some_iff, Prod.mk.injEq]

theorem isSome_seat? (t : Table) (x : PageId) : (t.seat? x).isSome = (t.stored? x).isSome :=
  Option.isSome_map

/-- In a whole table a page is marked exactly when another one is seated under it. -/
theorem Whole.marked_iff_seat (h : t.Whole) (hl : t.stored? l.nid = some l) :
    l.hasChildren = true ↔ ∃ x weight, t.seat? x = some (l.nid, weight) := by
  rw [h.linked.flag l hl (h.sound.of_stored? hl).1.nid_ne_zero]
  constructor
  · intro ⟨k, hk, hkp⟩
    exact ⟨k.nid, k.weight, seat?_eq_some_iff.2 ⟨k, hk, hkp, rfl⟩⟩
  · intro ⟨x, weight, hx⟩
    obtain ⟨k, hk, hkp, _⟩ := seat?_eq_some_iff.1 hx
    exact ⟨k, h.sound.stored?_nid hk, hkp⟩

/-- The seats of the pages above a page make up its path. -/
theorem Whole.path_eq_of_seats (h : t.Whole) (h' : t'.Whole) (hs : ∀ x, t.seat? x = t'.seat? x) :
    ∀ k, t.stored? k.nid = some k → ∀ k', t'.stored? k.nid = some k' → k'.path = k.path := by
  have hpid : ∀ k k', t.stored? k.nid = some k → t'.stored? k.nid = some k' → k'.pid = k.pid := by
    intro k k' hk hk'
    have hseat := hs k.nid
    rw [seat?_of_stored? hk, seat?_of_stored? hk'] at hseat
    exact (congrArg Prod.fst (Option.some.inj hseat)).symm
  refine h.induction ?_ ?_
  · intro k hk hup k' hk'
    obtain ⟨hks, _⟩ := h.sound.of_stored? hk
    obtain ⟨hks', hnid⟩ := h'.sound.of_stored? hk'
    have htop : k'.pid = 0 := by
      rw [hpid k k' hk hk', ← hks.getLast_dropLast, hup]
      rfl
    rw [hks'.path_of_top htop, hnid, hks.valid.path_eq, hup]
    rfl
  · intro k p hk hp hup hparent k' hk'
    have hkp := (h.dropLast_path_eq_iff hk hp).1 hup.symm
    have hsome : (t'.stored? p.nid).isSome := by
      rw [← isSome_seat?, ← hs, isSome_seat?, hp]
      rfl
    obtain ⟨p', hp'⟩ := Option.isSome_iff_exists.1 hsome
    have hplace := h'.linked.place k' p' (h'.sound.stored?_nid hk') (by
      rw [hpid k k' hk hk', hkp]
      exact hp')
    rw [hplace, hparent p' hp', (h'.sound.of_stored? hk').2, hup,
      ← (h.sound.of_stored? hk).1.valid.path_eq]

/-- A whole table is determined by its seats. -/
theorem Whole.eq_of_seats (h : t.Whole) (h' : t'.Whole) (hs : ∀ x, t.seat? x = t'.seat? x) :
    t = t' := by
  refine h.sound.ext h'.sound fun x => ?_
  cases hk : t.stored? x with
  | none =>
    have hnone : t'.seat? x = none := by rw [← hs, seat?, hk, Option.map_none]
    exact (Option.map_eq_none_iff.1 hnone).symm
  | some k =>
    obtain ⟨hks, rfl⟩ := h.sound.of_stored? hk
    have hseat := (hs k.nid).symm.trans (seat?_of_stored? hk)
    obtain ⟨k', hk', _, hweight⟩ := seat?_eq_some_iff.1 hseat
    obtain ⟨hks', hnid⟩ := h'.sound.of_stored? hk'
    have hmark : k'.hasChildren = k.hasChildren := by
      rw [Bool.eq_iff_iff, h.marked_iff_seat hk, h'.marked_iff_seat (h'.sound.stored?_nid hk'),
        hnid]
      simp only [hs]
    have hpath := h.path_eq_of_seats h' hs k hk k' hk'
    rw [hk', hks.eq_along, hks'.eq_along, hpath, hmark, hweight]

/-- A page does not lie above its parent. -/
theorem Whole.nid_not_mem_parent {p : Link} (h : t.Whole) (hl : t.stored? l.nid = some l)
    (hp : t.stored? l.pid = some p) : l.nid ∉ p.path := by
  intro hmem
  have hlen := (h.path_of_mem hl p (h.sound.stored?_nid hp) hmem).length_le
  rw [h.linked.place l p hl hp, List.length_append, List.length_singleton] at hlen
  omega

/-- The pages that give their books the ids are those at the top. -/
theorem Whole.isBookRoot_iff (h : t.Whole) (hl : t.stored? l.nid = some l) :
    l.isBookRoot = true ↔ l.pid = 0 := by
  have hls := (h.sound.of_stored? hl).1
  rw [Link.isBookRoot, beq_iff_eq]
  constructor
  · intro hself
    by_contra hpid
    obtain ⟨p, hp⟩ := Option.isSome_iff_exists.1 (h.closed l hl hpid)
    have hps := (h.sound.of_stored? hp).1
    apply h.nid_not_mem_parent hl hp
    rw [hself, hls.bid_of_path hps (h.linked.place l p hl hp)]
    exact hps.bid_starts.subset List.mem_cons_self
  · intro hpid
    exact (hls.bid_of_top hpid).symm

end Table

end Outline
