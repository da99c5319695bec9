import Outline.Proofs.Arrange.Removing
import Outline.Proofs.Store.Linked

/-!
Moves and removals on linked tables.

What moves with a page is found by its path, while a child is found by the parent it names. On
linked tables the two agree, so moves, and with them the promotions of a removal, keep tables
linked.
-/
namespace Outline
set_option autoImplicit false

namespace Link

variable {l k p old moved : Link} {flag : Bool}

theorem liesWithin_iff (hl : l.Sound) (ho : old.Sound) :
    l.LiesWithin old ↔ old.path <+: l.path := by
  constructor
  · exact And.right
  · rintro ⟨s, hs⟩
    refine ⟨?_, s, hs⟩
    rw [← hl.head_path, ← ho.head_path, ← hs, List.head?_append_of_ne_nil _ ho.path_ne_nil]

section Carried

variable (ho : old.Sound) (hm : moved.Sound) (hl : l.Sound) (hn : moved.nid = old.nid)

include ho hm hl hn

theorem nid_carried : (carried old moved flag l).nid = l.nid := by
  simp [carried, nid_moveOver ho hm hl hn]

theorem pid_carried :
    (carried old moved flag l).pid = if l.nid = old.nid then moved.pid else l.pid := by
  simp only [carried, pid_flagged]
  split
  · next h => rw [moveOver, if_pos h]
  · next h => rw [pid_moveOver ho hm hl hn h]

omit hn in
/-- What lies within the old link gets a new start for its path, and nothing else does. -/
theorem path_carried (hsame : l.nid = old.nid → l = old)
    (hfit : l.LiesWithin old → moved.depth + (l.depth - old.depth) ≤ maxDepth) :
    (carried old moved flag l).path =
      if l.LiesWithin old then moved.path ++ l.path.drop old.depth else l.path := by
  simp only [carried, path_flagged, moveOver]
  by_cases hw : l.LiesWithin old
  · rw [if_pos hw]
    split
    · next h =>
      rw [hsame h, List.drop_of_length_le (Nat.le_of_eq ho.length_path), List.append_nil]
    · rw [path_rehang hm hl (hfit hw)]
  · rw [if_neg hw, if_neg hw]
    split
    · next h =>
      rw [hsame h] at hw
      exact absurd ⟨rfl, List.prefix_rfl⟩ hw
    · rfl

/-- The moved page and what lies within the old link get to the new book, and nothing else does. -/
theorem bid_carried_of_any :
    (carried old moved flag l).bid =
      if l.nid = old.nid ∨ l.LiesWithin old then moved.bid else l.bid := by
  simp only [carried, bid_flagged, moveOver]
  by_cases hself : l.nid = old.nid
  · rw [if_pos hself, if_pos (.inl hself)]
  · by_cases hw : l.LiesWithin old
    · rw [if_neg hself, if_pos hw, if_pos (.inr hw), hw.rehang_eq ho hm hl hn hself]
    · rw [if_neg hself, if_neg hw, if_neg (not_or.2 ⟨hself, hw⟩)]

theorem bid_carried (hsame : l.nid = old.nid → l = old) :
    (carried old moved flag l).bid = if l.LiesWithin old then moved.bid else l.bid := by
  have hself : (l.nid = old.nid ∨ l.LiesWithin old) ↔ l.LiesWithin old := by
    refine or_iff_right_of_imp fun heq => ?_
    rw [hsame heq]
    exact ⟨rfl, List.prefix_rfl⟩
  rw [bid_carried_of_any ho hm hl hn, if_congr hself rfl rfl]

theorem hasChildren_carried (hsame : l.nid = old.nid → l.hasChildren = moved.hasChildren) :
    (carried old moved flag l).hasChildren =
      if l.nid = moved.pid then true else if l.nid = old.pid then flag else l.hasChildren := by
  have hmove : (l.moveOver old moved).hasChildren = l.hasChildren := by
    unfold moveOver
    split
    · next h => exact (hsame h).symm
    · split <;> rfl
  simp only [carried, hasChildren_flagged, nid_flagged, nid_moveOver ho hm hl hn, hmove]

end Carried

end Link

namespace Arrange

variable {t t' : Table} {old moved c k p : Link} {pid x : PageId}

/-- What a move has put in place of the old link. -/
structure Destined (old : Link) (pid : PageId) (t : Table) (moved : Link) : Prop where
  sound : moved.Sound
  page : moved.nid = old.nid
  parent : moved.pid = pid
  mark : moved.hasChildren = old.hasChildren
  fits : ∀ l, t.stored? l.nid = some l → l.LiesWithin old →
    moved.depth + (l.depth - old.depth) ≤ maxDepth
  path : (pid = 0 ∧ moved.path = [old.nid]) ∨
    ∃ parent, t.stored? pid = some parent ∧ old.nid ∉ parent.path ∧
      moved.path = parent.path ++ [old.nid]

theorem Rehung.destined (hr : Rehung t old pid moved t') (h : t.Sound) (ho : old.Sound) :
    Destined old pid t moved := by
  obtain ⟨above, weight, hp, rfl, hfit⟩ := hr.place
  have hm : (old.placed above weight).Sound := sound_placed h ho.nid_pos hp
  have hpath : (old.placed above weight).path = above ++ [old.nid] := by
    apply Link.path_along
    have hd := hm.depth_le
    rw [depth_placed] at hd
    simpa using hd
  refine ⟨hm, nid_placed _ _ _, pid_placed h hp, rfl, ?_, ?_⟩
  · intro l hl hw
    have hdeep := Table.depth_le_deepest ((mem_pagesWithin h ho).2 ⟨hl, hw⟩)
    omega
  · rcases pathAbove_ok hp with ⟨hz, rfl⟩ | ⟨_, parent, hs, hw, _, rfl⟩
    · exact .inl ⟨hz, hpath⟩
    · refine .inr ⟨parent, hs, ?_, hpath⟩
      intro hmem
      rw [Link.isWithin, List.contains_iff_mem.2 hmem] at hw
      cases hw

theorem eq_of_nid {l : Link} (hs : t.stored? old.nid = some old)
    (hl : t.stored? l.nid = some l) : l.nid = old.nid → l = old := by
  intro hn
  rw [hn, hs] at hl
  cases hl
  rfl

section Rehung

variable (h : t.Sound) (hs : t.stored? old.nid = some old)

include h hs

/-- A page below its parent lies within a link exactly when the parent does, unless it is the page
of that link. -/
theorem liesWithin_parent_iff (hk : t.stored? k.nid = some k) (hp : t.stored? k.pid = some p)
    (hne : k.nid ≠ old.nid) (hpath : k.path = p.path ++ [k.nid]) :
    k.LiesWithin old ↔ p.LiesWithin old := by
  have ho := (h.of_stored? hs).1
  rw [Link.liesWithin_iff (h.of_stored? hk).1 ho, Link.liesWithin_iff (h.of_stored? hp).1 ho, hpath,
    List.prefix_concat_iff]
  constructor
  · rintro (heq | hpre)
    · have hlast := ho.getLast_path
      rw [heq, List.getLast?_concat] at hlast
      exact absurd hlast hne
    · exact hpre
  · exact .inr

/-- A child of the old parent that is not the old link's page does not lie within the old link. -/
theorem not_liesWithin_sibling (hk : t.stored? k.nid = some k) (hne : k.nid ≠ old.nid)
    {q : List PageId} (hpath : k.path = q ++ [k.nid]) (hold : old.path = q ++ [old.nid]) :
    ¬ k.LiesWithin old := by
  rw [Link.liesWithin_iff (h.of_stored? hk).1 (h.of_stored? hs).1, hpath, hold]
  intro hpre
  have heq := List.IsPrefix.eq_of_length hpre (by simp)
  exact hne (List.singleton_inj.1 (List.append_cancel_left heq)).symm

/-- Another child of the parent that is left stays in its book. -/
theorem bid_sibling {x : PageId} (hlink : t.LinkedBut x) (hk : t.stored? k.nid = some k)
    (hp : t.stored? old.pid = some p) (hkp : k.pid = old.pid) (hko : k.nid ≠ old.nid) :
    (k.moveOver old moved).bid = old.bid := by
  have hps := (h.of_stored? hp).1
  have hold := hlink.place old p hs hp
  have hplace := hlink.place k p hk (by rw [hkp]; exact hp)
  rw [Link.moveOver, if_neg hko, if_neg (not_liesWithin_sibling h hs hk hko hplace hold),
    (h.of_stored? hk).1.bid_of_path hps hplace, (h.of_stored? hs).1.bid_of_path hps hold]

end Rehung

section Destined

variable {flag : Bool} (h : t.Sound) (hs : t.stored? old.nid = some old)
  (hd : Destined old pid t moved)

include h hs hd

theorem Destined.nid_carried (hk : t.stored? k.nid = some k) :
    (Link.carried old moved flag k).nid = k.nid :=
  Link.nid_carried (h.of_stored? hs).1 hd.sound (h.of_stored? hk).1 hd.page

theorem Destined.pid_carried (hk : t.stored? k.nid = some k) :
    (Link.carried old moved flag k).pid = if k.nid = old.nid then pid else k.pid := by
  rw [Link.pid_carried (h.of_stored? hs).1 hd.sound (h.of_stored? hk).1 hd.page, hd.parent]

theorem Destined.bid_carried (hk : t.stored? k.nid = some k) :
    (Link.carried old moved flag k).bid = if k.LiesWithin old then moved.bid else k.bid :=
  Link.bid_carried (h.of_stored? hs).1 hd.sound (h.of_stored? hk).1 hd.page (eq_of_nid hs hk)

theorem Destined.path_carried (hk : t.stored? k.nid = some k) :
    (Link.carried old moved flag k).path =
      if k.LiesWithin old then moved.path ++ k.path.drop old.depth else k.path :=
  Link.path_carried (h.of_stored? hs).1 hd.sound (h.of_stored? hk).1 (eq_of_nid hs hk)
    (hd.fits k hk)

theorem Destined.hasChildren_carried (hk : t.stored? k.nid = some k) :
    (Link.carried old moved flag k).hasChildren =
      if k.nid = pid then true else if k.nid = old.pid then flag else k.hasChildren := by
  rw [Link.hasChildren_carried (h.of_stored? hs).1 hd.sound (h.of_stored? hk).1 hd.page, hd.parent]
  intro hko
  rw [eq_of_nid hs hk hko, hd.mark]

/-- After a move every page lies one level below the page it then has for a parent. -/
theorem Destined.place {x : PageId} (hlink : t.LinkedBut x) (hk : t.stored? k.nid = some k)
    (hp : t.stored? p.nid = some p) (hkp : (Link.carried old moved flag k).pid = p.nid) :
    (Link.carried old moved flag k).path = (Link.carried old moved flag p).path ++ [k.nid] := by
  have ho := (h.of_stored? hs).1
  rw [hd.pid_carried h hs hk] at hkp
  rw [hd.path_carried h hs hk, hd.path_carried h hs hp]
  by_cases hko : k.nid = old.nid
  · obtain rfl := eq_of_nid hs hk hko
    rw [if_pos rfl] at hkp
    rw [if_pos ⟨rfl, List.prefix_rfl⟩, List.drop_of_length_le (Nat.le_of_eq ho.length_path),
      List.append_nil]
    rcases hd.path with ⟨hz, _⟩ | ⟨parent, hparent, hfree, hmoved⟩
    · exact absurd (hkp.symm.trans hz) (h.of_stored? hp).1.nid_ne_zero
    · rw [hkp, hp] at hparent
      cases hparent
      rw [hmoved, if_neg]
      intro hw
      exact hfree (hw.2.subset ho.nid_mem_path)
  · rw [if_neg hko] at hkp
    have hp₀ : t.stored? k.pid = some p := by rw [hkp]; exact hp
    have hplace := hlink.place k p hk hp₀
    have hiff := liesWithin_parent_iff h hs hk hp₀ hko hplace
    by_cases hw : p.LiesWithin old
    · rw [if_pos hw, if_pos (hiff.2 hw), hplace, List.drop_append_of_le_length, List.append_assoc]
      rw [← ho.length_path]
      exact hw.2.length_le
    · rw [if_neg hw, if_neg (mt hiff.1 hw), hplace]

/-- After a move every page is marked exactly when a page then has it for a parent. -/
theorem Destined.marked_iff {x : PageId} (hflag : LeavesFlag t old moved flag)
    (hlink : t.LinkedBut x) (hp : t.stored? p.nid = some p) (hpx : p.nid ≠ x) :
    (Link.carried old moved flag p).hasChildren = true ↔
      ∃ k, t.stored? k.nid = some k ∧ (Link.carried old moved flag k).pid = p.nid := by
  rw [hd.hasChildren_carried h hs hp]
  by_cases hpp : p.nid = pid
  · rw [if_pos hpp]
    exact ⟨fun _ => ⟨old, hs, by rw [hd.pid_carried h hs hs, if_pos rfl, hpp]⟩, fun _ => rfl⟩
  · rw [if_neg hpp]
    by_cases hpo : p.nid = old.pid
    · rw [if_pos hpo, show flag = true ↔ _ from hflag]
      constructor
      · rintro ⟨k, hk, _, hkp, hko⟩
        exact ⟨k, hk, by rw [hd.pid_carried h hs hk, if_neg hko, hkp, hpo]⟩
      · rintro ⟨k, hk, hkp⟩
        rw [hd.pid_carried h hs hk] at hkp
        by_cases hko : k.nid = old.nid
        · rw [if_pos hko] at hkp
          exact absurd hkp.symm hpp
        · rw [if_neg hko] at hkp
          have hkp' := hkp.trans hpo
          exact ⟨k, hk, bid_sibling h hs hlink hk (by rw [← hpo]; exact hp) hkp' hko, hkp', hko⟩
    · rw [if_neg hpo, hlink.flag p hp hpx]
      constructor
      · rintro ⟨k, hk, hkp⟩
        refine ⟨k, hk, ?_⟩
        rw [hd.pid_carried h hs hk, if_neg, hkp]
        intro hko
        rw [eq_of_nid hs hk hko] at hkp
        exact hpo hkp.symm
      · rintro ⟨k, hk, hkp⟩
        rw [hd.pid_carried h hs hk] at hkp
        refine ⟨k, hk, ?_⟩
        split at hkp
        · exact absurd hkp.symm hpp
        · exact hkp

end Destined

theorem Rehung.linkedBut (hr : Rehung t old pid moved t') (h : t.Sound)
    (hs : t.stored? old.nid = some old) (hlink : t.LinkedBut x) : t'.LinkedBut x := by
  have hd := hr.destined h (h.of_stored? hs).1
  obtain ⟨flag, hflag, hstored⟩ := hr.stored
  refine Table.LinkedBut.of_map h hstored ?_ ?_ ?_
  · intro k hk
    exact hd.nid_carried h hs hk
  · intro k p hk hp hkp
    exact hd.place h hs hlink hk hp hkp
  · intro p hp hpx
    exact hd.marked_iff h hs hflag hlink hp hpx

/-- What does not lie within the old link only gets the flags of the parents. -/
theorem Destined.carried_outside {flag : Bool} (hs : t.stored? old.nid = some old)
    (hd : Destined old pid t moved) (hk : t.stored? k.nid = some k) (hw : ¬ k.LiesWithin old) :
    Link.carried old moved flag k = (k.flagged old.pid flag).flagged pid true := by
  have hko : k.nid ≠ old.nid := by
    intro heq
    rw [eq_of_nid hs hk heq] at hw
    exact hw ⟨rfl, List.prefix_rfl⟩
  rw [Link.carried, Link.moveOver, if_neg hko, if_neg hw, hd.parent]

/-- A move leaves a link alone that does not lie within the old one and is of neither parent. -/
theorem Destined.carried_eq_self {flag : Bool} (hs : t.stored? old.nid = some old)
    (hd : Destined old pid t moved) (hk : t.stored? k.nid = some k) (hw : ¬ k.LiesWithin old)
    (hleft : k.nid ≠ old.pid) (hjoined : k.nid ≠ pid) : Link.carried old moved flag k = k := by
  rw [hd.carried_outside hs hk hw, Link.flagged_of_ne hleft, Link.flagged_of_ne hjoined]

/-- The children of a page that is gone, which lay at a path. -/
structure Orphans (t : Table) (path : List PageId) (gone : PageId) (cs : List Link) : Prop where
  stored : ∀ c ∈ cs, t.stored? c.nid = some c
  path : ∀ c ∈ cs, c.path = path ++ [c.nid]
  parent : ∀ c ∈ cs, c.pid = gone
  distinct : (cs.map Link.nid).Nodup
  gone : t.stored? gone = none

section Orphans

variable {path : List PageId} {gone : PageId} {cs : List Link} {touched : List PageId}

theorem Orphans.head (ho : Orphans t path gone (c :: cs)) : t.stored? c.nid = some c :=
  ho.stored c List.mem_cons_self

/-- What does not lie below the path is left alone when an orphan becomes a root. -/
theorem Orphans.kept {t₁ : Table} (ho : Orphans t path gone (c :: cs)) (h : t.Sound)
    (hr : Rehung t c 0 moved t₁) (hk : t.stored? k.nid = some k) (hw : ¬ k.LiesWithin c) :
    t₁.stored? k.nid = some k := by
  have hd := hr.destined h (h.of_stored? ho.head).1
  obtain ⟨flag, _, hstored⟩ := hr.stored
  have hleft : k.nid ≠ c.pid := by
    rw [ho.parent c List.mem_cons_self]
    intro heq
    rw [heq, ho.gone] at hk
    cases hk
  rw [hstored, hk, Option.map_some, hd.carried_eq_self ho.head hk hw hleft
    (h.of_stored? hk).1.nid_ne_zero]

theorem Orphans.tail {t₁ : Table} (ho : Orphans t path gone (c :: cs)) (h : t.Sound)
    (hr : Rehung t c 0 moved t₁) : Orphans t₁ path gone cs := by
  have hdistinct := ho.distinct
  rw [List.map_cons, List.nodup_cons] at hdistinct
  refine ⟨?_, fun d hd => ho.path d (List.mem_cons_of_mem _ hd),
    fun d hd => ho.parent d (List.mem_cons_of_mem _ hd), hdistinct.2, ?_⟩
  · intro d hd
    have hds := ho.stored d (List.mem_cons_of_mem _ hd)
    refine ho.kept h hr hds (not_liesWithin_sibling h ho.head hds ?_
      (ho.path d (List.mem_cons_of_mem _ hd)) (ho.path c List.mem_cons_self))
    intro heq
    exact hdistinct.1 (heq ▸ List.mem_map_of_mem hd)
  · obtain ⟨flag, _, hstored⟩ := hr.stored
    rw [hstored, ho.gone]
    rfl

theorem Promoted.linkedBut (hp : Promoted t cs touched t') (h : t.Sound)
    (ho : Orphans t path gone cs) (hlink : t.LinkedBut x) : t'.LinkedBut x := by
  induction hp with
  | nil => exact hlink
  | cons first _ ih => exact ih first.sound (ho.tail h first) (first.linkedBut h ho.head hlink)

/-- Making roots of orphans leaves alone what does not lie below the path they lay at. -/
theorem Promoted.kept (hp : Promoted t cs touched t') (h : t.Sound) (ho : Orphans t path gone cs)
    (hk : t.stored? k.nid = some k) (hpath : ¬ path <+: k.path) : t'.stored? k.nid = some k := by
  induction hp with
  | nil => exact hk
  | cons first _ ih =>
    refine ih first.sound (ho.tail h first) (ho.kept h first hk ?_)
    rintro ⟨_, hw⟩
    rw [ho.path _ List.mem_cons_self] at hw
    exact hpath ((List.prefix_append _ _).trans hw)

theorem Promoted.stored?_eq_none (hp : Promoted t cs touched t') (hx : t.stored? x = none) :
    t'.stored? x = none := by
  induction hp with
  | nil => exact hx
  | cons first _ ih =>
    obtain ⟨flag, _, hstored⟩ := first.stored
    apply ih
    rw [hstored, hx]
    rfl

end Orphans

/-- The children of a book root are orphans once it is removed. -/
theorem orphans_of_place (h : t.Sound) (hs : t.stored? old.nid = some old)
    (hplace : ∀ c, t.stored? c.nid = some c → t.stored? c.pid = some old →
      c.path = old.path ++ [c.nid]) :
    Orphans (t.erase old.nid) old.path old.nid (orphansOf t old) := by
  refine ⟨?_, ?_, ?_, nodup_orphansOf h old, by rw [Table.stored?_erase, if_pos rfl]⟩
  · intro c hc
    obtain ⟨_, hcs, _, hpid⟩ := (mem_orphansOf h).1 hc
    rw [Table.stored?_erase, if_neg, hcs]
    intro heq
    exact (h.of_stored? hcs).1.other (hpid.trans heq.symm)
  · intro c hc
    obtain ⟨_, hcs, _, hpid⟩ := (mem_orphansOf h).1 hc
    exact hplace c hcs (by rw [hpid]; exact hs)
  · intro c hc
    exact ((mem_orphansOf h).1 hc).2.2.2

theorem orphans_orphansOf (h : t.Sound) (hs : t.stored? old.nid = some old)
    (hlink : t.Linked) : Orphans (t.erase old.nid) old.path old.nid (orphansOf t old) :=
  orphans_of_place h hs fun c hc hp => hlink.place c old hc hp

/-- The parent of a removed page is in its book, also after the promotions: it lay above all that
was promoted. -/
theorem bid_left {t₁ : Table} {touched : List PageId} (h : t.Sound)
    (hs : t.stored? old.nid = some old) (hlink : t.Linked)
    (hp : Promoted (t.erase old.nid) (orphansOf t old) touched t₁)
    (hpar : t₁.stored? old.pid = some p) : p.bid = old.bid := by
  have ho := (h.of_stored? hs).1
  cases hpar₀ : t.stored? old.pid with
  | none =>
    have hnone := hp.stored?_eq_none (x := old.pid) (by
      rw [Table.stored?_erase, if_neg ho.other, hpar₀])
    rw [hpar] at hnone
    cases hnone
  | some p₀ =>
    obtain ⟨hps₀, hpn₀⟩ := h.of_stored? hpar₀
    have hplace := hlink.place old p₀ hs hpar₀
    have hkept := hp.kept (k := p₀) h.erase (orphans_orphansOf h hs hlink) (by
      rw [Table.stored?_erase, hpn₀, if_neg ho.other, hpar₀]) (by
      intro hpre
      have hlen := hpre.length_le
      rw [hplace, List.length_append, List.length_singleton] at hlen
      omega)
    rw [hpn₀, hpar] at hkept
    cases hkept
    exact (ho.bid_of_path hps₀ hplace).symm

theorem removed_linked {t₁ : Table} {touched : List PageId} (h : t.Sound)
    (hs : t.stored? old.nid = some old) (hlink : t.Linked)
    (hp : Promoted (t.erase old.nid) (orphansOf t old) touched t₁) :
    (t₁.setHasChildren old.pid (otherChildren t₁ old)).Linked := by
  have horphans := orphans_orphansOf h hs hlink
  have hlink₁ := hp.linkedBut h.erase horphans (hlink.erase h hs)
  have h₁ := hp.sound h.erase
  refine hlink₁.setHasChildren h₁ ?_
  intro p hpar
  obtain ⟨hps, hpn⟩ := h₁.of_stored? hpar
  rw [otherChildren, decide_eq_true_iff, Table.countChildren_pos_iff h₁]
  constructor
  · rintro ⟨k, hk, _, hkp, _⟩
    exact ⟨k, hk, hkp⟩
  · rintro ⟨k, hk, hkp⟩
    have hplace := hlink₁.place k p hk (by rw [hkp]; exact hpar)
    refine ⟨k, hk, ?_, hkp, ?_⟩
    · rw [(h₁.of_stored? hk).1.bid_of_path hps hplace, bid_left h hs hlink hp hpar]
    · intro heq
      have hnone := hp.stored?_eq_none horphans.gone
      rw [heq, hnone] at hk
      cases hk

end Arrange
end Outline
