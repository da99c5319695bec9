import Outline.Proofs.Link.Placement
import Outline.Proofs.Store.Lookup

/-!
What the reads and writes of the store do on a sound table: no read is refused, and a write is
refused only for a page that is stored already, or is not.
-/
namespace Outline
set_option autoImplicit false

theorem Cell.le_int_iff {a b : PageId} : (Cell.int a).le (.int b) = true ↔ a ≤ b :=
  Std.isLE_compare

/-- A path of pages starts a chain when it starts the path of the chain's page. -/
theorem Link.prefix_chain_iff {l top : Link} (hl : l.Sound) (ht : top.Sound) :
    top.path <+: l.chain.toList ↔ top.path <+: l.path := by
  have hc := hl.toList_chain
  constructor
  · rintro ⟨s, hs⟩
    rw [hc] at hs
    rcases List.append_eq_append_iff.1 hs with ⟨as, has, _⟩ | ⟨cs, hcs, hzero⟩
    · exact ⟨as, has.symm⟩
    · cases cs with
      | nil => simp [hcs]
      | cons id cs =>
        have hmem : id ∈ List.replicate (maxDepth - l.path.length) (0 : PageId) := by
          rw [hzero]
          simp
        have hpos := ht.positive id (by simp [hcs])
        rw [(List.mem_replicate.1 hmem).2] at hpos
        exact absurd hpos Int64.lt_irrefl
  · intro hp
    rw [hc]
    exact hp.trans (List.prefix_append _ _)

namespace Query

variable {l top : Link} {book pid : PageId}

theorem wants_iff {q : Query} {r : Row} :
    q.wants r = true ↔ r.bid = .int q.bid ∧
      (q.parents.isEmpty || q.parents.any fun pid => r.pid == .int pid) = true ∧
      (q.maxDepth.all fun depth => r.depth.isAtMost (Int64.ofNat depth)) = true ∧
      startsWith q.path r = true ∧ (q.parent.all fun pid => r.pid == .int pid) = true := by
  simp only [wants, Bool.and_eq_true, beq_iff_eq, and_assoc]

/-- A query wants links of its book only. -/
theorem bid_of_wants {q : Query} (h : q.wants (.ofLink l) = true) : l.bid = q.bid :=
  Cell.int.inj (wants_iff.1 h).1

theorem zip_all_iff {path ids : List PageId} (h : path.length ≤ ids.length) :
    ((path.zip (ids.map Cell.int)).all fun (id, c) => c == .int id) = true ↔ path <+: ids := by
  induction path generalizing ids with
  | nil => simp
  | cons id path ih =>
    cases ids with
    | nil => simp at h
    | cons x ids =>
      have hstep := @ih ids (by simpa using h)
      rw [List.map_cons, List.zip_cons_cons, List.all_cons, Bool.and_eq_true, hstep, beq_iff_eq,
        Cell.int.injEq, List.cons_prefix_cons, eq_comm]

theorem wants_within (hl : l.Sound) (ht : top.Sound) :
    ((Query.book book).within top).wants (Row.ofLink l) = true ↔
      l.bid = book ∧ top.path <+: l.path := by
  have hs : startsWith top.path (Row.ofLink l) = true ↔ top.path <+: l.path := by
    rw [← Link.prefix_chain_iff hl ht]
    apply zip_all_iff
    rw [l.chain.length_toList, ht.length_path]
    exact ht.depth_le
  simp [wants, Query.book, Query.within, Row.ofLink, ← hs]

theorem wants_childrenOf :
    ((Query.book book).childrenOf pid).wants (Row.ofLink l) = true ↔
      l.bid = book ∧ l.pid = pid := by
  simp [wants, Query.book, Query.childrenOf, Row.ofLink, startsWith]

end Query

namespace Row

/-- Reading rows of sound links is not refused. -/
theorem toLinks_eq {rs : List Row} (h : ∀ r ∈ rs, ∃ l : Link, l.Sound ∧ ofLink l = r) :
    toLinks rs = .ok (rs.filterMap link?) := by
  induction rs with
  | nil => rfl
  | cons r rs ih =>
    obtain ⟨l, hl, rfl⟩ := h _ List.mem_cons_self
    have hrest := ih fun r hr => h r (List.mem_cons_of_mem _ hr)
    rw [List.filterMap_cons_some (link?_ofLink hl.valid), toLinks, toLink_ofLink hl.valid, hrest]
    rfl

theorem isBetween_depth {d : Nat} (hpos : 0 < d) (hle : d ≤ maxDepth) :
    (Cell.int (Int64.ofNat d)).isBetween 1 9 = true := by
  have hall : ∀ k : Fin 10, 0 < k.val →
      (Cell.int (Int64.ofNat k.val)).isBetween 1 9 = true := by decide
  exact hall ⟨d, by simp only [maxDepth] at hle; omega⟩ hpos

theorem nullColumn?_ofLink (l : Link) : (ofLink l).nullColumn? = none := by
  have hcells : ∀ c ∈ (ofLink l).cells, c ≠ .null := by
    intro c hc
    simp only [cells, ofLink, flag, Levels.toList_map, List.cons_append, List.nil_append,
      List.mem_cons, List.mem_map] at hc
    rcases hc with rfl | rfl | rfl | rfl | rfl | rfl | ⟨id, _, rfl⟩ <;> simp
  rw [nullColumn?, Option.map_eq_none_iff, List.find?_eq_none]
  intro x hx
  simpa using hcells x.2 (List.of_mem_zip hx).2

theorem isBetween_depth_ofLink {l : Link} (h : l.Valid) :
    (ofLink l).depth.isBetween 1 9 = true := by
  obtain ⟨_, ⟨hpos, hle⟩, _⟩ := Link.valid_iff.1 h
  exact isBetween_depth (Nat.pos_of_ne_zero hpos) hle

/-- The row of a valid link meets the conditions of the table. -/
theorem fault?_ofLink {l : Link} (h : l.Valid) : (ofLink l).fault? = none := by
  have hd : (Cell.int (Int64.ofNat l.depth)).isBetween 1 9 = true := isBetween_depth_ofLink h
  have hn : ¬ l.nid ≤ 0 := Int64.not_le.2 (Link.valid_iff.1 h).1
  have hf : ¬ (flag l.hasChildren ≠ .int 0 ∧ flag l.hasChildren ≠ .int 1) := by
    cases l.hasChildren <;> simp [flag]
  have hrow : ofLink l = ⟨l.nid, .int l.bid, .int l.pid, flag l.hasChildren,
      .int l.weight.toInt64, .int (Int64.ofNat l.depth), l.chain.map .int⟩ := rfl
  rw [fault?, nullColumn?_ofLink, hrow]
  simp only [if_neg hn, if_neg hf, hd]
  rfl

end Row

namespace Table

variable {t : Table} {l : Link} {nid : PageId}

theorem link?_eq (h : t.Sound) (nid : PageId) : t.link? nid = .ok (t.stored? nid) := by
  unfold link?
  rw [row?_of_stored? h]
  cases hl : t.stored? nid with
  | none => rfl
  | some l => simp [Row.toLink_ofLink (h.of_stored? hl).1.valid, Except.map]

/-- A link is read when it is stored. -/
theorem link?_ok_iff (h : t.Sound) : t.link? nid = .ok (some l) ↔ t.stored? nid = some l := by
  rw [link?_eq h, Except.ok.injEq]

theorem insert_eq (hl : l.Valid) (h : t.row? l.nid = none) :
    t.insert l = .ok (t.put (.ofLink l)) := by
  simp [insert, Row.fault?_ofLink hl, h]

theorem update_eq (hl : l.Valid) (h : (t.row? l.nid).isSome) :
    t.update l = .ok (t.put (.ofLink l)) := by
  have hd := Row.isBetween_depth_ofLink hl
  have hn : (t.row? l.nid).isNone = false := by
    cases hr : t.row? l.nid with
    | none => simp [hr] at h
    | some r => rfl
  simp [update, hn, hd]

theorem delete_eq (h : (t.row? nid).isSome) : t.delete nid = .ok (t.erase nid) := by
  have hn : (t.row? nid).isNone = false := by
    cases hr : t.row? nid with
    | none => simp [hr] at h
    | some r => rfl
  simp [delete, hn]

/-- The links of the rows that a query wants, in their order. -/
def chosen (t : Table) (q : Query) : List Link :=
  (t.wantedRows q).filterMap Row.link?

theorem mem_wantedRows {q : Query} {r : Row} :
    r ∈ t.wantedRows q ↔ r ∈ t.rows ∧ q.wants r = true := by
  simp [wantedRows, List.mem_mergeSort]

theorem select_eq (h : t.Sound) (q : Query) : t.select q = .ok (t.chosen q) :=
  Row.toLinks_eq fun r hr => h r (mem_wantedRows.1 hr).1

/-- The links of some rows of a sound table are the stored links whose rows these are. -/
theorem mem_links (h : t.Sound) {rs : List Row} (hrs : ∀ r ∈ rs, r ∈ t.rows) :
    l ∈ rs.filterMap Row.link? ↔ t.stored? l.nid = some l ∧ .ofLink l ∈ rs := by
  rw [List.mem_filterMap]
  constructor
  · rintro ⟨r, hr, hread⟩
    obtain ⟨k, hk, rfl⟩ := h.mem_rows_iff.1 (hrs r hr)
    rw [Row.link?_ofLink (h.of_stored? hk).1.valid] at hread
    cases hread
    exact ⟨hk, hr⟩
  · rintro ⟨hl, hr⟩
    exact ⟨_, hr, Row.link?_ofLink (h.of_stored? hl).1.valid⟩

theorem mem_chosen (h : t.Sound) {q : Query} :
    l ∈ t.chosen q ↔ t.stored? l.nid = some l ∧ q.wants (.ofLink l) = true := by
  rw [chosen, mem_links h fun r hr => (mem_wantedRows.1 hr).1, mem_wantedRows]
  exact and_congr_right fun hl => and_iff_right (h.mem_rows_iff.2 ⟨l, hl, rfl⟩)

theorem sound_of_mem_chosen (h : t.Sound) {q : Query} (hl : l ∈ t.chosen q) : l.Sound :=
  (h.of_stored? ((mem_chosen h).1 hl).1).1

/-- Queries that want the same stored links choose the same. -/
theorem chosen_congr (h : t.Sound) {q q' : Query}
    (hq : ∀ l, t.stored? l.nid = some l → q.wants (.ofLink l) = q'.wants (.ofLink l)) :
    t.chosen q = t.chosen q' := by
  have hrows : t.rows.filter q.wants = t.rows.filter q'.wants := by
    apply List.filter_congr
    intro r hr
    obtain ⟨l, hl, rfl⟩ := h.mem_rows_iff.1 hr
    exact hq l hl
  rw [chosen, chosen, wantedRows, wantedRows, hrows]

/-- Some rows of a sound table are the rows of their links. -/
theorem map_ofLink_links (h : t.Sound) (rs : List Row) (hrs : ∀ r ∈ rs, r ∈ t.rows) :
    (rs.filterMap Row.link?).map Row.ofLink = rs := by
  induction rs with
  | nil => rfl
  | cons r rs ih =>
    obtain ⟨l, hl, rfl⟩ := h r (hrs r List.mem_cons_self)
    rw [List.filterMap_cons_some (Row.link?_ofLink hl.valid), List.map_cons,
      ih fun r hr => hrs r (List.mem_cons_of_mem _ hr)]

/-- The chosen links are those of the wanted rows. -/
theorem map_ofLink_chosen (h : t.Sound) (q : Query) :
    (t.chosen q).map Row.ofLink = t.wantedRows q :=
  map_ofLink_links h _ fun _ hr => (mem_wantedRows.1 hr).1

theorem nodup_chosen (h : t.Sound) (q : Query) : ((t.chosen q).map Link.nid).Nodup := by
  have hrows : ((t.wantedRows q).map Row.nid).Nodup := by
    have hperm : (t.wantedRows q).Perm (t.rows.filter q.wants) := List.mergeSort_perm _ _
    refine (hperm.map Row.nid).nodup_iff.2 (List.Pairwise.map _ ?_ (t.ordered.filter _))
    exact fun _ _ hlt => Int64.ne_of_lt hlt
  have hmap : (t.chosen q).map Link.nid = (t.wantedRows q).map Row.nid := by
    rw [← map_ofLink_chosen h, List.map_map]
    rfl
  rw [hmap]
  exact hrows

theorem countChildren_pos_iff (h : t.Sound) {book pid : PageId} :
    0 < t.countChildren book pid (some nid) ↔
      ∃ l, t.stored? l.nid = some l ∧ l.bid = book ∧ l.pid = pid ∧ l.nid ≠ nid := by
  simp only [countChildren, List.countP_pos_iff, h.mem_rows_iff]
  constructor
  · rintro ⟨r, ⟨l, hl, rfl⟩, hp⟩
    simp only [Row.ofLink, Option.all_some, Bool.and_eq_true, beq_iff_eq, Cell.int.injEq,
      bne_iff_ne] at hp
    exact ⟨l, hl, hp.1.1, hp.1.2, hp.2⟩
  · rintro ⟨l, hl, rfl, rfl, hn⟩
    exact ⟨_, ⟨l, hl, rfl⟩, by simpa [Row.ofLink] using hn⟩

theorem mem_eraseReps_loop {α : Type} [BEq α] [LawfulBEq α] {x : α} (as : List α) :
    ∀ (a : α) (done : List α), x ∈ List.eraseRepsBy.loop (· == ·) a as done ↔
      x ∈ done ∨ x = a ∨ x ∈ as := by
  induction as with
  | nil => intro a done; simp [List.eraseRepsBy.loop, or_comm]
  | cons b as ih =>
    intro a done
    rw [List.eraseRepsBy.loop]
    by_cases hab : a = b
    · simp [hab, ih]
    · rw [show (a == b) = false by simpa using hab]
      simp only [ih, List.mem_cons]
      tauto

theorem mem_eraseReps {α : Type} [BEq α] [LawfulBEq α] {x : α} {as : List α} :
    x ∈ as.eraseReps ↔ x ∈ as := by
  cases as with
  | nil => rfl
  | cons a as =>
    rw [List.eraseReps, List.eraseRepsBy, mem_eraseReps_loop]
    simp

section Depth

/-- The cell of a depth. -/
def depthCell (d : Nat) : Cell := .int (Int64.ofNat d)

theorem le_depthCell {a b : Nat} (ha : a ≤ maxDepth) (hb : b ≤ maxDepth) :
    (depthCell a).le (depthCell b) = decide (a ≤ b) := by
  have hall : ∀ x y : Fin 10, (depthCell x.val).le (depthCell y.val) = decide (x.val ≤ y.val) := by
    decide
  simp only [maxDepth] at ha hb
  exact hall ⟨a, by omega⟩ ⟨b, by omega⟩

theorem isAtMost_depthCell {a b : Nat} (ha : a ≤ Word.maxUnsigned32)
    (hb : b ≤ Word.maxUnsigned32) : (depthCell a).isAtMost (Int64.ofNat b) = true ↔ a ≤ b := by
  rw [Cell.isAtMost, depthCell, Bool.and_eq_true, Cell.le_int_iff, Int64.le_iff_toInt_le,
    Int64.toInt_ofNat_of_lt (Nat.lt_of_le_of_lt ha (by decide)),
    Int64.toInt_ofNat_of_lt (Nat.lt_of_le_of_lt hb (by decide)), Int.ofNat_le]
  exact and_iff_right rfl

/-- The greater of what was found and a cell, unless that is empty. -/
def greater (found : Option Cell) (c : Cell) : Option Cell :=
  if c = .null then found
  else match found with
    | none => some c
    | some best => if best.le c then some c else some best

theorem greatest_eq (cs : List Cell) : greatest cs = cs.foldl greater none := rfl

theorem greater_depthCell {best d : Nat} (hbest : best ≤ maxDepth) (hd : d ≤ maxDepth) :
    greater (some (depthCell best)) (depthCell d) = some (depthCell (max best d)) := by
  rw [greater, if_neg (by simp [depthCell])]
  simp only [le_depthCell hbest hd, decide_eq_true_eq]
  split
  · next hle => rw [Nat.max_eq_right hle]
  · next hle => rw [Nat.max_eq_left (Nat.le_of_not_le hle)]

theorem foldl_greater_depthCells (ds : List Nat) :
    ∀ best, best ≤ maxDepth → (∀ d ∈ ds, d ≤ maxDepth) →
      (ds.map depthCell).foldl greater (some (depthCell best)) =
        some (depthCell (ds.foldl max best)) := by
  induction ds with
  | nil => intro best _ _; rfl
  | cons d ds ih =>
    intro best hbest hds
    have hd := hds d List.mem_cons_self
    rw [List.map_cons, List.foldl_cons, List.foldl_cons, greater_depthCell hbest hd]
    exact ih (max best d) (Nat.max_le.2 ⟨hbest, hd⟩) fun x hx => hds x (List.mem_cons_of_mem _ hx)

theorem greatest_depthCells {ds : List Nat} (h : ∀ d ∈ ds, d ≤ maxDepth) :
    greatest (ds.map depthCell) = ds.max?.map depthCell := by
  cases ds with
  | nil => rfl
  | cons d ds =>
    have hd := h d List.mem_cons_self
    have hrest := foldl_greater_depthCells ds d hd fun x hx => h x (List.mem_cons_of_mem _ hx)
    rw [greatest_eq, List.max?_cons', Option.map_some, ← hrest]
    rfl

/-- The links of the pages at or below a link, found by its path. -/
def pagesWithin (t : Table) (l : Link) : List Link :=
  (t.rows.filter ((Query.book l.bid).within l).wants).filterMap Row.link?

/-- The depth of the deepest page at or below a link, or the link's own. -/
def deepest (t : Table) (l : Link) : Nat := ((t.pagesWithin l).map Link.depth).max?.getD l.depth

theorem mem_pagesWithin (h : t.Sound) {k : Link} :
    k ∈ t.pagesWithin l ↔
      t.stored? k.nid = some k ∧ ((Query.book l.bid).within l).wants (.ofLink k) = true := by
  rw [← mem_chosen h]
  simp [pagesWithin, chosen, wantedRows, List.mem_mergeSort]

theorem depths_eq (h : t.Sound) (rs : List Row) (hrs : ∀ r ∈ rs, r ∈ t.rows) :
    rs.map Row.depth = ((rs.filterMap Row.link?).map Link.depth).map depthCell := by
  have hdepth : Row.depth ∘ Row.ofLink = depthCell ∘ Link.depth := rfl
  conv_lhs => rw [← map_ofLink_links h rs hrs]
  rw [List.map_map, List.map_map, hdepth]

theorem maxDepthWithin_eq (h : t.Sound) (l : Link) :
    t.maxDepthWithin l = .ok (t.deepest l) := by
  have hle : ∀ d ∈ (t.pagesWithin l).map Link.depth, d ≠ 0 ∧ d ≤ maxDepth := by
    intro d hd
    obtain ⟨k, hk, rfl⟩ := List.mem_map.1 hd
    have hs := (h.of_stored? ((mem_pagesWithin h).1 hk).1).1
    exact ⟨Nat.ne_of_gt hs.depth_pos, hs.depth_le⟩
  have hg : greatest ((t.rows.filter ((Query.book l.bid).within l).wants).map Row.depth) =
      ((t.pagesWithin l).map Link.depth).max?.map depthCell := by
    rw [depths_eq h _ fun r hr => List.mem_of_mem_filter hr]
    exact greatest_depthCells fun d hd => (hle d hd).2
  unfold maxDepthWithin deepest
  rw [hg]
  cases hm : ((t.pagesWithin l).map Link.depth).max? with
  | none => rfl
  | some d =>
    obtain ⟨hpos, hd⟩ := hle d (List.max?_mem hm)
    simp only [Option.map_some, Option.getD_some]
    exact Row.depthOf_ofNat hpos hd

theorem depth_le_deepest {k : Link} (hk : k ∈ t.pagesWithin l) : k.depth ≤ t.deepest l := by
  unfold deepest
  cases hm : ((t.pagesWithin l).map Link.depth).max? with
  | none =>
    rw [List.max?_eq_none_iff, List.map_eq_nil_iff] at hm
    rw [hm] at hk
    cases hk
  | some d =>
    rw [Option.getD_some]
    exact (List.max?_eq_some_iff.1 hm).2 _ (List.mem_map_of_mem hk)

theorem exists_deepest (hl : l ∈ t.pagesWithin l) :
    ∃ k ∈ t.pagesWithin l, k.depth = t.deepest l := by
  unfold deepest
  cases hm : ((t.pagesWithin l).map Link.depth).max? with
  | none =>
    rw [List.max?_eq_none_iff, List.map_eq_nil_iff] at hm
    rw [hm] at hl
    cases hl
  | some d => exact List.mem_map.1 (List.max?_mem hm)

theorem deepest_le_of {d : Nat} (hl : l.depth ≤ d) (h : ∀ k ∈ t.pagesWithin l, k.depth ≤ d) :
    t.deepest l ≤ d := by
  unfold deepest
  cases hm : ((t.pagesWithin l).map Link.depth).max? with
  | none => exact hl
  | some _ =>
    obtain ⟨k, hk, rfl⟩ := List.mem_map.1 (List.max?_mem hm)
    exact h k hk

theorem deepest_le (h : t.Sound) (hl : l.depth ≤ maxDepth) : t.deepest l ≤ maxDepth :=
  deepest_le_of hl fun _ hk => (h.of_stored? ((mem_pagesWithin h).1 hk).1).1.depth_le

end Depth

end Table
end Outline
