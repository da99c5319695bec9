import Mathlib.Data.List.Basic
import Mathlib.Tactic.Tauto
import Outline.Proofs.Link.Sound
import Outline.Store.Query

/-!
Tables seen through the link stored for each page.

`Table.stored?` is what reading says about one page. On a sound table, whose rows all hold sound
links, it determines the rows, and every write is a change of this function at one page.
-/
namespace Outline
set_option autoImplicit false

namespace Row

theorem readIds_ints (ids : List PageId) :
    ∀ (index : Nat) (names : List String), names.length = ids.length →
      readIds index (names.zip (ids.map Cell.int)) = .ok ids := by
  induction ids with
  | nil =>
    intro index names hlen
    rw [List.length_eq_zero_iff.1 hlen]
    rfl
  | cons id ids ih =>
    intro index names hlen
    cases names with
    | nil => simp at hlen
    | cons name names =>
      have h := ih (index + 1) names (by simpa using hlen)
      simp only [List.map_cons, List.zip_cons_cons, readIds, h]
      rfl

theorem readWeight_int (w : Int32) : readWeight (.int w.toInt64) = .ok w := by
  have hfit : Word.fits32 w.toInt64.toInt = true := by
    have h1 := w.le_toInt
    have h2 := w.toInt_lt
    rw [Int32.toInt_toInt64, Word.fits32, Bool.and_eq_true, decide_eq_true_iff, decide_eq_true_iff,
      Word.min32, Word.max32]
    omega
  simp only [readWeight, readInt, Cell.toInt, Except.mapError, bind, Except.bind, hfit, if_true,
    pure, Except.pure, Int32.toInt32_toInt64]

theorem depthOf_ofNat {d : Nat} (hpos : d ≠ 0) (hle : d ≤ maxDepth) :
    depthOf (Int64.ofNat d) = .ok d := by
  have h : (Int64.ofNat d).toInt = d := Int64.toInt_ofNat_of_lt (by
    have : maxDepth < 2 ^ 63 := by decide
    omega)
  simp only [depthOf, h, Int.toNat_natCast]
  rw [if_pos (by omega)]

/-- A valid link is read back from its row. -/
theorem toLink_ofLink {l : Link} (h : l.Valid) : (ofLink l).toLink = .ok l := by
  have hf : readFlag (flag l.hasChildren) = .ok l.hasChildren := by
    cases l.hasChildren <;> rfl
  have hw := readWeight_int l.weight
  have hi : readIds 6 (levelColumns.zip (l.chain.map Cell.int).toList) = .ok l.chain.toList :=
    readIds_ints l.chain.toList 6 levelColumns l.chain.length_toList.symm
  have hv := (Link.valid_iff.1 h).2.1
  have hd := depthOf_ofNat hv.1 hv.2
  have hfault : l.fault? = none := h
  have hl : (⟨l.nid, l.bid, l.pid, l.hasChildren, l.weight, l.depth,
      Chain.ofList l.chain.toList⟩ : Link) = l := by
    rw [Chain.ofList, Levels.ofList_toList]
  simp only [toLink, ofLink, hf, hw, hi, readInt, Cell.toInt, Except.mapError, bind, Except.bind,
    hd, hl, hfault, pure, Except.pure]

/-- The link that a row holds, if it can be read. -/
def link? (r : Row) : Option Link := r.toLink.toOption

theorem link?_ofLink {l : Link} (h : l.Valid) : (ofLink l).link? = some l := by
  rw [link?, toLink_ofLink h]
  rfl

end Row

namespace Table

variable {t : Table} {nid x : PageId} {r r' : Row}

/-- Two rows of one id are one row. -/
theorem eq_of_mem (hr : r ∈ t.rows) (hr' : r' ∈ t.rows) (h : r.nid = r'.nid) : r = r' := by
  have hp : t.rows.Pairwise fun a b => a.nid = b.nid → a = b :=
    t.ordered.imp fun hlt heq => absurd heq (Int64.ne_of_lt hlt)
  exact List.Pairwise.forall_of_forall_of_flip (fun _ _ _ => rfl) hp
    (hp.imp fun hab heq => (hab heq.symm).symm) hr hr' h

theorem row?_eq_some_iff : t.row? nid = some r ↔ r ∈ t.rows ∧ r.nid = nid := by
  constructor
  · intro h
    exact ⟨List.mem_of_find?_eq_some h, by simpa using List.find?_some h⟩
  · rintro ⟨hr, rfl⟩
    cases h : t.row? r.nid with
    | none => simpa using List.find?_eq_none.1 h r hr
    | some r' =>
      have hr' := List.mem_of_find?_eq_some h
      have hn : r'.nid = r.nid := by simpa using List.find?_some h
      rw [eq_of_mem hr hr' hn.symm]

theorem ext_mem {t t' : Table} (h : ∀ r, r ∈ t.rows ↔ r ∈ t'.rows) : t = t' := by
  apply Table.ext
  have hperm : t.rows.Perm t'.rows := (List.perm_ext_iff_of_nodup
    (t.ordered.imp fun hlt heq => Int64.ne_of_lt hlt (congrArg Row.nid heq))
    (t'.ordered.imp fun hlt heq => Int64.ne_of_lt hlt (congrArg Row.nid heq))).2 h
  exact hperm.eq_of_pairwise
    (fun a b _ _ hab hba => absurd (Int64.lt_trans hab hba) Int64.lt_irrefl) t.ordered t'.ordered

theorem ext_row? {t t' : Table} (h : ∀ x, t.row? x = t'.row? x) : t = t' := by
  apply ext_mem
  intro r
  have h1 := @row?_eq_some_iff t r.nid r
  have h2 := @row?_eq_some_iff t' r.nid r
  rw [h r.nid] at h1
  simpa using h1.symm.trans h2

theorem mem_map_nid_iff : x ∈ t.rows.map Row.nid ↔ (t.row? x).isSome := by
  rw [List.mem_map, Option.isSome_iff_exists]
  simp only [row?_eq_some_iff]

theorem pairwise_map_nid (t : Table) : (t.rows.map Row.nid).Pairwise (· < ·) :=
  List.pairwise_map.2 t.ordered

theorem nodup_map_nid (t : Table) : (t.rows.map Row.nid).Nodup := by
  refine t.pairwise_map_nid.imp ?_
  intro a b hlt
  exact Int64.ne_of_lt hlt

/-- Tables that store the same pages store them in the same order. -/
theorem map_nid_eq {t t' : Table} (h : ∀ x, (t.row? x).isSome = (t'.row? x).isSome) :
    t.rows.map Row.nid = t'.rows.map Row.nid := by
  have hperm : (t.rows.map Row.nid).Perm (t'.rows.map Row.nid) :=
    (List.perm_ext_iff_of_nodup t.nodup_map_nid t'.nodup_map_nid).2 fun x => by
      rw [mem_map_nid_iff, mem_map_nid_iff, h]
  exact hperm.eq_of_pairwise
    (fun a b _ _ hab hba => absurd (Int64.lt_trans hab hba) Int64.lt_irrefl)
    t.pairwise_map_nid t'.pairwise_map_nid

theorem mem_put : r' ∈ (t.put r).rows ↔ r' = r ∨ (r' ∈ t.rows ∧ r'.nid ≠ r.nid) := by
  have hne : r'.nid ≠ r.nid ↔ r'.nid < r.nid ∨ r.nid < r'.nid := by
    simp only [ne_eq, ← Int64.toInt_inj, Int64.lt_iff_toInt_lt]
    omega
  simp only [put, List.mem_append, List.mem_cons, List.mem_filter, decide_eq_true_eq, hne]
  tauto

theorem row?_put : (t.put r).row? x = if x = r.nid then some r else t.row? x := by
  split
  · next h => exact row?_eq_some_iff.2 ⟨mem_put.2 (.inl rfl), h.symm⟩
  · next h =>
    ext r'
    rw [row?_eq_some_iff, row?_eq_some_iff, mem_put]
    constructor
    · rintro ⟨rfl | hr, hx⟩
      · exact absurd hx.symm h
      · exact ⟨hr.1, hx⟩
    · rintro ⟨hr, rfl⟩
      exact ⟨.inr ⟨hr, h⟩, rfl⟩

/-- Putting a row where it is changes nothing. -/
theorem put_row (h : t.row? r.nid = some r) : t.put r = t := by
  apply ext_row?
  intro x
  rw [row?_put]
  split
  · next hx => rw [hx, h]
  · rfl

/-- The rows of one id are its row, if it has one. -/
theorem filter_nid (t : Table) (nid : PageId) :
    t.rows.filter (·.nid == nid) = (t.row? nid).toList := by
  obtain ⟨rows, ordered⟩ := t
  change rows.filter (·.nid == nid) = (rows.find? (·.nid == nid)).toList
  induction rows with
  | nil => rfl
  | cons r rows ih =>
    obtain ⟨hlt, hrest⟩ := List.pairwise_cons.1 ordered
    rw [List.filter_cons, List.find?_cons]
    split
    · next hr =>
      have hnone : rows.filter (·.nid == nid) = [] := by
        rw [List.filter_eq_nil_iff]
        intro r' hr'
        rw [← beq_iff_eq.1 hr, beq_iff_eq]
        exact (Int64.ne_of_lt (hlt r' hr')).symm
      rw [hnone, hr]
      rfl
    · next hr =>
      rw [Bool.not_eq_true] at hr
      rw [ih hrest, hr]

theorem row?_erase : (t.erase nid).row? x = if x = nid then none else t.row? x := by
  ext r
  rw [row?_eq_some_iff]
  split
  · next h =>
    subst h
    simp [erase]
  · next h =>
    rw [row?_eq_some_iff]
    simp only [erase, List.mem_filter, bne_iff_ne]
    constructor
    · rintro ⟨hr, rfl⟩
      exact ⟨hr.1, rfl⟩
    · rintro ⟨hr, rfl⟩
      exact ⟨⟨hr, h⟩, rfl⟩

theorem map_nid_erase (t : Table) (nid : PageId) :
    (t.erase nid).rows.map Row.nid = (t.rows.map Row.nid).filter (· != nid) := by
  rw [erase, List.filter_map]
  rfl

theorem length_erase (h : (t.row? nid).isSome) :
    (t.erase nid).rows.length + 1 = t.rows.length := by
  have hmem := mem_map_nid_iff.2 h
  have hpos := List.length_pos_of_mem hmem
  have hlen := List.length_erase_of_mem hmem
  rw [t.nodup_map_nid.erase_eq_filter, ← map_nid_erase, List.length_map, List.length_map] at hlen
  rw [List.length_map] at hpos
  omega

/-- The link stored for a page, if there is one that can be read. -/
def stored? (t : Table) (nid : PageId) : Option Link :=
  (t.row? nid).bind Row.link?

/-- A table in which every row is the row of a sound link. -/
def Sound (t : Table) : Prop := ∀ r ∈ t.rows, ∃ l : Link, l.Sound ∧ Row.ofLink l = r

theorem sound_empty : Table.empty.Sound := fun _ h => nomatch h

theorem row?_of_stored? (h : t.Sound) : t.row? nid = (t.stored? nid).map Row.ofLink := by
  unfold stored?
  cases hr : t.row? nid with
  | none => rfl
  | some r =>
    obtain ⟨l, hl, rfl⟩ := h r (row?_eq_some_iff.1 hr).1
    simp [Row.link?_ofLink hl.valid]

theorem stored?_of_row? {l : Link} (h : l.Sound) (hr : t.row? nid = some (Row.ofLink l)) :
    t.stored? nid = some l := by
  simp [stored?, hr, Row.link?_ofLink h.valid]

/-- The link that a sound table stores for a page is sound and names the page. -/
theorem Sound.of_stored? (h : t.Sound) {l : Link} (hl : t.stored? nid = some l) :
    l.Sound ∧ l.nid = nid := by
  have hr : t.row? nid = _ := row?_of_stored? h
  rw [hl, Option.map_some] at hr
  obtain ⟨hmem, hn⟩ := row?_eq_some_iff.1 hr
  obtain ⟨k, hk, hkr⟩ := h _ hmem
  have hlk : some l = some k := by
    rw [← hl]
    exact stored?_of_row? hk (by rw [hr, hkr])
  cases hlk
  exact ⟨hk, hn⟩

theorem Sound.stored?_nid (h : t.Sound) {l : Link} (hl : t.stored? nid = some l) :
    t.stored? l.nid = some l := by
  rw [(h.of_stored? hl).2]
  exact hl

/-- Zero is no page. -/
theorem Sound.stored?_zero (h : t.Sound) : t.stored? 0 = none := by
  cases hl : t.stored? 0 with
  | none => rfl
  | some l =>
    obtain ⟨hs, hn⟩ := h.of_stored? hl
    exact absurd hn hs.nid_ne_zero

/-- The rows of a sound table are those of the stored links. -/
theorem Sound.mem_rows_iff (h : t.Sound) :
    r ∈ t.rows ↔ ∃ l, t.stored? l.nid = some l ∧ Row.ofLink l = r := by
  constructor
  · intro hr
    obtain ⟨l, hl, rfl⟩ := h r hr
    exact ⟨l, stored?_of_row? hl (row?_eq_some_iff.2 ⟨hr, rfl⟩), rfl⟩
  · rintro ⟨l, hl, rfl⟩
    have hr : t.row? l.nid = _ := row?_of_stored? h
    rw [hl, Option.map_some] at hr
    exact (row?_eq_some_iff.1 hr).1

theorem ne_of_stored? {l : Link} (hl : t.stored? l.nid = some l) (hnone : t.stored? nid = none) :
    l.nid ≠ nid := by
  rintro rfl
  rw [hl] at hnone
  cases hnone

theorem stored?_eq_none_iff (h : t.Sound) : t.stored? nid = none ↔ t.row? nid = none := by
  rw [row?_of_stored? h, Option.map_eq_none_iff]

theorem Sound.ext {t' : Table} (h : t.Sound) (h' : t'.Sound)
    (hs : ∀ x, t.stored? x = t'.stored? x) : t = t' :=
  ext_row? fun x => by rw [row?_of_stored? h, row?_of_stored? h', hs]

theorem Sound.put (h : t.Sound) {l : Link} (hl : l.Sound) : (t.put (Row.ofLink l)).Sound := by
  intro r hr
  rcases mem_put.1 hr with rfl | ⟨hr, _⟩
  · exact ⟨l, hl, rfl⟩
  · exact h r hr

theorem stored?_put {l : Link} (hl : l.Sound) :
    (t.put (Row.ofLink l)).stored? x = if x = l.nid then some l else t.stored? x := by
  unfold stored?
  rw [row?_put]
  split
  · next hx => rw [if_pos (show x = l.nid from hx), Option.bind_some, Row.link?_ofLink hl.valid]
  · next hx => rw [if_neg (show ¬ x = l.nid from hx)]

theorem Sound.erase (h : t.Sound) : (t.erase nid).Sound :=
  fun r hr => h r (List.mem_of_mem_filter hr)

theorem stored?_erase : (t.erase nid).stored? x = if x = nid then none else t.stored? x := by
  unfold stored?
  rw [row?_erase]
  split <;> rfl

end Table

/-- The link of a page with another flag, and every other link as it is. -/
def Link.flagged (nid : PageId) (value : Bool) (l : Link) : Link :=
  if l.nid = nid then { l with hasChildren := value } else l

theorem Link.flagged_of_ne {l : Link} {nid : PageId} (h : l.nid ≠ nid) (value : Bool) :
    l.flagged nid value = l := if_neg h

@[simp] theorem Link.nid_flagged (nid : PageId) (value : Bool) (l : Link) :
    (l.flagged nid value).nid = l.nid := by
  unfold flagged
  split <;> rfl

@[simp] theorem Link.bid_flagged (nid : PageId) (value : Bool) (l : Link) :
    (l.flagged nid value).bid = l.bid := by
  unfold flagged
  split <;> rfl

@[simp] theorem Link.pid_flagged (nid : PageId) (value : Bool) (l : Link) :
    (l.flagged nid value).pid = l.pid := by
  unfold flagged
  split <;> rfl

@[simp] theorem Link.path_flagged (nid : PageId) (value : Bool) (l : Link) :
    (l.flagged nid value).path = l.path := by
  unfold flagged
  split <;> rfl

theorem Link.hasChildren_flagged (nid : PageId) (value : Bool) (l : Link) :
    (l.flagged nid value).hasChildren = if l.nid = nid then value else l.hasChildren := by
  unfold flagged
  split <;> rfl

theorem Link.Sound.flagged {l : Link} (h : l.Sound) (nid : PageId) (value : Bool) :
    (l.flagged nid value).Sound := by
  unfold Link.flagged
  split
  · exact ⟨h.valid, h.positive, h.book, h.parent, h.other⟩
  · exact h

namespace Table

variable {t : Table}

theorem setHasChildren_eq (h : t.Sound) (nid : PageId) (value : Bool) :
    t.setHasChildren nid value =
      match t.stored? nid with
      | none => t
      | some l => t.put (Row.ofLink (l.flagged nid value)) := by
  unfold setHasChildren
  rw [row?_of_stored? h]
  cases hl : t.stored? nid with
  | none => rfl
  | some l => simp only [Option.map_some, Link.flagged, if_pos (h.of_stored? hl).2]; rfl

theorem Sound.setHasChildren (h : t.Sound) (nid : PageId) (value : Bool) :
    (t.setHasChildren nid value).Sound := by
  rw [setHasChildren_eq h]
  cases hl : t.stored? nid with
  | none => exact h
  | some l => exact h.put ((h.of_stored? hl).1.flagged nid value)

/-- Writing a flag changes the link of the page and no other. -/
theorem stored?_setHasChildren (h : t.Sound) (nid x : PageId) (value : Bool) :
    (t.setHasChildren nid value).stored? x = (t.stored? x).map (Link.flagged nid value) := by
  rw [setHasChildren_eq h]
  cases hl : t.stored? nid with
  | none =>
    cases hx : t.stored? x with
    | none => simp
    | some k =>
      have hne : k.nid ≠ nid := by
        rintro rfl
        rw [(h.of_stored? hx).2, hx] at hl
        cases hl
      simp [Link.flagged, hne]
  | some l =>
    have hn := (h.of_stored? hl).2
    simp only [stored?_put ((h.of_stored? hl).1.flagged nid value), Link.nid_flagged, hn]
    split
    · next hx => rw [hx, hl, Option.map_some]
    · next hx =>
      cases hk : t.stored? x with
      | none => rfl
      | some k => simp [Link.flagged, (h.of_stored? hk).2, hx]

end Table

/-- The link of a page with another weight, and every other link as it is. -/
def Link.weighed (nid : PageId) (weight : Int32) (l : Link) : Link :=
  if l.nid = nid then { l with weight := weight } else l

@[simp] theorem Link.nid_weighed (nid : PageId) (weight : Int32) (l : Link) :
    (l.weighed nid weight).nid = l.nid := by
  unfold weighed
  split <;> rfl

@[simp] theorem Link.bid_weighed (nid : PageId) (weight : Int32) (l : Link) :
    (l.weighed nid weight).bid = l.bid := by
  unfold weighed
  split <;> rfl

@[simp] theorem Link.pid_weighed (nid : PageId) (weight : Int32) (l : Link) :
    (l.weighed nid weight).pid = l.pid := by
  unfold weighed
  split <;> rfl

@[simp] theorem Link.path_weighed (nid : PageId) (weight : Int32) (l : Link) :
    (l.weighed nid weight).path = l.path := by
  unfold weighed
  split <;> rfl

@[simp] theorem Link.hasChildren_weighed (nid : PageId) (weight : Int32) (l : Link) :
    (l.weighed nid weight).hasChildren = l.hasChildren := by
  unfold weighed
  split <;> rfl

theorem Link.Sound.withWeight {l : Link} (h : l.Sound) (weight : Int32) :
    ({ l with weight := weight } : Link).Sound :=
  ⟨h.valid, h.positive, h.book, h.parent, h.other⟩

namespace Table

variable {t : Table} {old : Link}

theorem stored?_weigh (h : t.Sound) (hs : t.stored? old.nid = some old) (weight : Int32)
    (x : PageId) :
    (t.put (.ofLink { old with weight := weight })).stored? x =
      (t.stored? x).map (Link.weighed old.nid weight) := by
  rw [stored?_put ((h.of_stored? hs).1.withWeight weight)]
  split
  · next hx => rw [hx, hs, Option.map_some, Link.weighed, if_pos rfl]
  · next hx =>
    cases hk : t.stored? x with
    | none => rfl
    | some k => rw [Option.map_some, Link.weighed, (h.of_stored? hk).2, if_neg hx]

end Table
end Outline
