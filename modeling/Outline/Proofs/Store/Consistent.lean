import Outline.Proofs.Store.Books

/-!
Consistent tables: what it takes, said of the rows alone, for a table to be whole.

A row that can be read is the row of its link. Below stored parents the chain of a page is made of
page ids only, down from the root of its book, so a readable row of a consistent table is the row of
a sound link.
-/
namespace Outline
set_option autoImplicit false

namespace Row

section Reading

variable {α β : Type} {c : Cell}

theorem ok_of_bind {x : Except StoreFault α} {f : α → Except StoreFault β} {b : β}
    (h : (x >>= f) = .ok b) : ∃ a, x = .ok a ∧ f a = .ok b := by
  cases x with
  | error fault => cases h
  | ok a => exact ⟨a, rfl, h⟩

theorem eq_int_of_readInt {index : Nat} {column : String} {value : Int64}
    (h : readInt index column c = .ok value) : c = .int value := by
  cases c <;> cases h
  rfl

theorem eq_flag_of_readFlag {b : Bool} (h : readFlag c = .ok b) : c = flag b := by
  obtain ⟨value, hvalue, h⟩ := ok_of_bind h
  rw [eq_int_of_readInt hvalue]
  split at h
  · next hz =>
    cases h
    rw [hz]
    rfl
  · split at h
    · next h1 =>
      cases h
      rw [h1]
      rfl
    · cases h

theorem eq_weight_of_readWeight {weight : Int32} (h : readWeight c = .ok weight) :
    c = .int weight.toInt64 := by
  obtain ⟨value, hvalue, h⟩ := ok_of_bind h
  split at h
  · next hfits =>
    cases h
    rw [Word.fits32, Bool.and_eq_true, decide_eq_true_iff, decide_eq_true_iff, Word.min32,
      Word.max32] at hfits
    have hvalue' : value = value.toInt32.toInt64 := by
      apply Int64.toInt.inj
      rw [Int32.toInt_toInt64, Int64.toInt_toInt32, Int.bmod_eq_of_le]
      all_goals omega
    rw [eq_int_of_readInt hvalue, ← hvalue']
  · cases h

theorem eq_ofNat_of_depthOf {value : Int64} {depth : Nat} (h : depthOf value = .ok depth) :
    value = Int64.ofNat depth := by
  unfold depthOf at h
  split at h
  · next hrange =>
    cases h
    have hnat : (value.toInt.toNat : Int) = value.toInt := Int.toNat_of_nonneg (by omega)
    rw [← Int64.ofInt_eq_ofNat, hnat, Int64.ofInt_toInt]
  · cases h

theorem eq_ints_of_readIds (cells : List (String × Cell)) :
    ∀ (index : Nat) (ids : List PageId), readIds index cells = .ok ids →
      cells.map (·.2) = ids.map .int := by
  induction cells with
  | nil =>
    intro index ids h
    cases h
    rfl
  | cons entry cells ih =>
    intro index ids h
    obtain ⟨id, hid, h⟩ := ok_of_bind h
    obtain ⟨rest, hrest, h⟩ := ok_of_bind h
    cases h
    rw [List.map_cons, List.map_cons, eq_int_of_readInt hid, ih _ rest hrest]

end Reading

/-- A row that can be read is the row of the link that is read, and the link is valid. -/
theorem of_toLink {r : Row} {l : Link} (h : r.toLink = .ok l) : r = ofLink l ∧ l.Valid := by
  obtain ⟨hasChildren, hflag, h⟩ := ok_of_bind h
  obtain ⟨weight, hweight, h⟩ := ok_of_bind h
  obtain ⟨ids, hids, h⟩ := ok_of_bind h
  obtain ⟨bid, hbid, h⟩ := ok_of_bind h
  obtain ⟨pid, hpid, h⟩ := ok_of_bind h
  obtain ⟨value, hvalue, h⟩ := ok_of_bind h
  obtain ⟨depth, hdepth, h⟩ := ok_of_bind h
  simp only at h
  split at h
  · cases h
  · next hfault =>
    cases h
    refine ⟨?_, hfault⟩
    have hnames : levelColumns.length = r.levels.toList.length := by
      rw [r.levels.length_toList]
      rfl
    have hcells := eq_ints_of_readIds _ _ _ hids
    rw [List.map_snd_zip (Nat.le_of_eq hnames.symm)] at hcells
    have hlength : ids.length = maxDepth := by
      rw [← r.levels.length_toList, hcells, List.length_map]
    have hlevels : r.levels = (Chain.ofList ids).map .int := by
      apply Levels.ext
      rw [hcells, Levels.toList_map, Chain.ofList, Levels.ofList_toList 0 ⟨ids, hlength⟩]
    rw [ofLink, ← hlevels, ← eq_flag_of_readFlag hflag, ← eq_weight_of_readWeight hweight,
      ← eq_ofNat_of_depthOf hdepth, ← eq_int_of_readInt hbid, ← eq_int_of_readInt hpid,
      ← eq_int_of_readInt hvalue]

theorem link?_eq_some_iff {r : Row} {l : Link} : r.link? = some l ↔ r = ofLink l ∧ l.Valid := by
  constructor
  · intro h
    unfold link? at h
    cases hr : r.toLink with
    | error fault =>
      rw [hr] at h
      cases h
    | ok k =>
      rw [hr] at h
      cases h
      exact of_toLink hr
  · rintro ⟨rfl, hl⟩
    exact link?_ofLink hl

end Row

namespace Table

/-- A table whose rows can all be read, in which every page but the book roots has a parent that is
stored in its book along the chain without its own id, and a page is marked as having children
exactly when a row names it as its parent. -/
structure Consistent (t : Table) : Prop where
  readable : ∀ r ∈ t.rows, r.link?.isSome
  parent : ∀ r ∈ t.rows, ∀ l ∈ r.link?, l.pid ≠ 0 → ∃ q ∈ t.rows, ∃ p ∈ q.link?,
    p.nid = l.pid ∧ p.bid = l.bid ∧ p.path = l.path.dropLast
  flag : ∀ r ∈ t.rows, ∀ l ∈ r.link?,
    (l.hasChildren = true ↔ ∃ c ∈ t.rows, c.pid = .int l.nid)

instance (t : Table) : Decidable t.Consistent :=
  decidable_of_iff
    ((∀ r ∈ t.rows, r.link?.isSome) ∧
      (∀ r ∈ t.rows, ∀ l ∈ r.link?, l.pid ≠ 0 → ∃ q ∈ t.rows, ∃ p ∈ q.link?,
        p.nid = l.pid ∧ p.bid = l.bid ∧ p.path = l.path.dropLast) ∧
      ∀ r ∈ t.rows, ∀ l ∈ r.link?, (l.hasChildren = true ↔ ∃ c ∈ t.rows, c.pid = .int l.nid))
    ⟨fun ⟨hreadable, hparent, hflag⟩ => ⟨hreadable, hparent, hflag⟩,
      fun h => ⟨h.readable, h.parent, h.flag⟩⟩

end Table

namespace Link

/-- The path of a valid link ends with its page. -/
theorem Valid.path_eq {l : Link} (h : l.Valid) : l.path = l.path.dropLast ++ [l.nid] := by
  obtain ⟨_, hd, htail, _, _⟩ := valid_iff.1 h
  obtain ⟨k, hk⟩ : ∃ k, l.depth = k + 1 := ⟨l.depth - 1, by omega⟩
  have hlen := path_length hd.2
  have hne : l.path ≠ [] := by
    rw [← List.length_pos_iff]
    omega
  rw [hk, atLevel_succ (by omega), List.getElem?_eq_getElem (by omega), Option.getD_some] at htail
  have hlast : l.path.getLast hne = l.nid := by
    rw [List.getLast_eq_getElem, ← htail]
    congr 1
    omega
  rw [← hlast, List.dropLast_append_getLast hne]

theorem Valid.length_path {l : Link} (h : l.Valid) : l.path.length = l.depth :=
  path_length (valid_iff.1 h).2.1.2

/-- The path of a page that is not at the top leads to it from its parent. -/
theorem Sound.dropLast_path_eq_concat {l : Link} (h : l.Sound) (hpid : l.pid ≠ 0) :
    ∃ up, l.path.dropLast = up ++ [l.pid] := by
  have hlast := h.getLast_dropLast
  rcases List.eq_nil_or_concat l.path.dropLast with hup | ⟨up, id, hup⟩
  · rw [hup] at hlast
    exact absurd hlast.symm hpid
  · rw [hup, List.concat_eq_append, List.getLast?_concat, Option.getD_some] at hlast
    rw [hup, hlast, List.concat_eq_append]
    exact ⟨up, rfl⟩

/-- A page is around every one whose path its own leads to. -/
theorem Sound.pid_mem_trail {l k : Link} (hk : k.Sound) (h : l.Sound)
    (hup : l.path.dropLast <+: k.path) : l.pid ∈ k.trail := by
  by_cases hpid : l.pid = 0
  · rw [hpid]
    exact List.mem_cons_self
  · obtain ⟨up, hpath⟩ := h.dropLast_path_eq_concat hpid
    refine hk.mem_trail_of_mem hup ?_ (by rw [hpath]; simp)
    have hlen := h.length_path
    have hle := h.depth_le
    have hpos := h.depth_pos
    rw [List.length_dropLast]
    omega

end Link

namespace Table

variable {t : Table}

/-- The stored link of a row that can be read. -/
theorem stored?_of_link? {r : Row} {l : Link} (hr : r ∈ t.rows) (h : r.link? = some l) :
    t.stored? l.nid = some l := by
  obtain ⟨rfl, hl⟩ := Row.link?_eq_some_iff.1 h
  have hrow : t.row? l.nid = some (.ofLink l) := row?_eq_some_iff.2 ⟨hr, rfl⟩
  rw [stored?, hrow, Option.bind_some, h]

/-- The links of a consistent table are sound: below a book root each adds its own id to the path of
its parent. -/
theorem Consistent.sound_link (h : t.Consistent) {r : Row} {l : Link} (hr : r ∈ t.rows)
    (hl : r.link? = some l) : l.Sound := by
  -- The induction is on the depth, which a parent has one less of.
  induction hd : l.depth using Nat.strongRecOn generalizing r l with
  | _ d ih =>
    have hv := (Row.link?_eq_some_iff.1 hl).2
    have hpath := hv.path_eq
    have hlen := hv.length_path
    obtain ⟨hnid, hdepth, _, _, hshape⟩ := Link.valid_iff.1 hv
    by_cases hpid : l.pid = 0
    · simp only [Link.hasRootShape, hpid, beq_self_eq_true, if_true, Bool.and_eq_true,
        beq_iff_eq] at hshape
      have hup : l.path.dropLast = [] := by
        rw [← List.length_eq_zero_iff, List.length_dropLast, hlen]
        omega
      rw [hup, List.nil_append] at hpath
      refine ⟨hv, ?_, ?_, fun hone => by omega, ?_⟩
      · intro id hid
        rw [hpath, List.mem_singleton] at hid
        rw [hid]
        exact hnid
      · rw [Link.atLevel_succ (by omega), hpath]
        exact hshape.2
      · rw [hpid]
        exact Int64.ne_of_lt hnid
    · simp only [Link.hasRootShape, beq_iff_eq, if_neg hpid, Bool.and_eq_true, bne_iff_ne]
        at hshape
      obtain ⟨q, hq, p, hp, hpn, _, hpp⟩ := h.parent r hr l hl hpid
      have hpd : p.depth + 1 = l.depth := by
        rw [← (Row.link?_eq_some_iff.1 hp).2.length_path, ← hlen, hpp, List.length_dropLast]
        omega
      have hps := ih p.depth (by omega) hq hp rfl
      refine ⟨hv, ?_, hshape.2, ?_, ?_⟩
      · intro id hid
        rw [hpath, List.mem_append, List.mem_singleton, ← hpp] at hid
        rcases hid with hid | rfl
        · exact hps.positive id hid
        · exact hnid
      · intro _
        obtain ⟨k, hk⟩ : ∃ k, p.depth = k + 1 := ⟨p.depth - 1, by have := hps.depth_pos; omega⟩
        have hlast := hps.getLast_path
        rw [List.getLast?_eq_getElem?, hps.length_path, hpp, hpn] at hlast
        rw [← hpd, Nat.add_sub_cancel, hk, Link.atLevel_succ (by omega), ← hlast, hk,
          List.dropLast_eq_take, List.getElem?_take_of_lt (by omega)]
        rfl
      · -- A page that is its own parent would have a shorter path than it has.
        intro hself
        have hsame : p = l := by
          have hstored := stored?_of_link? hq hp
          rw [hpn, hself, stored?_of_link? hr hl] at hstored
          exact (Option.some.inj hstored).symm
        rw [hsame] at hpd
        omega

theorem Consistent.sound (h : t.Consistent) : t.Sound := by
  intro r hr
  obtain ⟨l, hl⟩ := Option.isSome_iff_exists.1 (h.readable r hr)
  exact ⟨l, h.sound_link hr hl, (Row.link?_eq_some_iff.1 hl).1.symm⟩

/-- The row of a stored link is read as that link. -/
theorem Sound.row_mem (h : t.Sound) {l : Link} (hl : t.stored? l.nid = some l) :
    .ofLink l ∈ t.rows ∧ (Row.ofLink l).link? = some l :=
  ⟨h.mem_rows_iff.2 ⟨l, hl, rfl⟩, Row.link?_ofLink (h.of_stored? hl).1.valid⟩

/-- A row names a page as its parent when a stored link does. -/
theorem Sound.named_iff (h : t.Sound) {pid : PageId} :
    (∃ c ∈ t.rows, c.pid = .int pid) ↔ ∃ k, t.stored? k.nid = some k ∧ k.pid = pid := by
  constructor
  · rintro ⟨c, hc, hcp⟩
    obtain ⟨k, hk, rfl⟩ := h.mem_rows_iff.1 hc
    exact ⟨k, hk, Cell.int.inj hcp⟩
  · rintro ⟨k, hk, hkp⟩
    exact ⟨.ofLink k, (h.row_mem hk).1, congrArg Cell.int hkp⟩

/-- In a linked table a page is marked when a row names it as its parent. -/
theorem Linked.mark_eq (hlink : t.Linked) (h : t.Sound) {l : Link}
    (hl : t.stored? l.nid = some l) : l.hasChildren = t.rows.any (·.pid == .int l.nid) := by
  rw [Bool.eq_iff_iff, hlink.flag l hl (h.of_stored? hl).1.nid_ne_zero, ← h.named_iff]
  simp

theorem Consistent.whole (h : t.Consistent) : t.Whole := by
  have hs := h.sound
  have hparent : ∀ k, t.stored? k.nid = some k → k.pid ≠ 0 →
      ∃ p, t.stored? k.pid = some p ∧ k.path = p.path ++ [k.nid] := by
    intro k hk hpid
    obtain ⟨hmem, hread⟩ := hs.row_mem hk
    obtain ⟨q, hq, p, hp, hpn, _, hpp⟩ := h.parent _ hmem k hread hpid
    refine ⟨p, ?_, ?_⟩
    · rw [← hpn]
      exact stored?_of_link? hq hp
    · rw [hpp]
      exact (hs.of_stored? hk).1.valid.path_eq
  refine ⟨hs, ⟨?_, ?_⟩, ?_⟩
  · intro k p hk hp
    have hpid : k.pid ≠ 0 := by
      rw [← (hs.of_stored? hp).2]
      exact (hs.of_stored? hp).1.nid_ne_zero
    obtain ⟨p', hp', hpath⟩ := hparent k hk hpid
    rw [hp] at hp'
    cases hp'
    exact hpath
  · intro p hp _
    obtain ⟨hmem, hread⟩ := hs.row_mem hp
    rw [h.flag _ hmem p hread, hs.named_iff]
  · intro k hk hpid
    obtain ⟨p, hp, _⟩ := hparent k hk hpid
    rw [hp]
    rfl

/-- Consistent tables are the whole ones. -/
theorem consistent_iff_whole : t.Consistent ↔ t.Whole := by
  refine ⟨Consistent.whole, fun h => ?_⟩
  have hs := h.sound
  have hread : ∀ {r l}, r ∈ t.rows → r.link? = some l → t.stored? l.nid = some l ∧ l.Sound := by
    intro r l hr hl
    have hstored := stored?_of_link? hr hl
    exact ⟨hstored, (hs.of_stored? hstored).1⟩
  refine ⟨?_, ?_, ?_⟩
  · intro r hr
    obtain ⟨l, hl, rfl⟩ := hs r hr
    rw [Row.link?_ofLink hl.valid]
    rfl
  · intro r hr l hl hpid
    obtain ⟨hstored, hls⟩ := hread hr hl
    obtain ⟨p, hp⟩ := Option.isSome_iff_exists.1 (h.closed l hstored hpid)
    obtain ⟨hps, hpn⟩ := hs.of_stored? hp
    obtain ⟨hmem, hpr⟩ := hs.row_mem (hs.stored?_nid hp)
    have hplace := h.linked.place l p hstored hp
    refine ⟨.ofLink p, hmem, p, hpr, hpn, (hls.bid_of_path hps hplace).symm, ?_⟩
    rw [hplace, List.dropLast_concat]
  · intro r hr l hl
    obtain ⟨hstored, hls⟩ := hread hr hl
    rw [h.linked.flag l hstored hls.nid_ne_zero, hs.named_iff]

end Table

end Outline
