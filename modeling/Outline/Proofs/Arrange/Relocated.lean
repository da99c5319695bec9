import Outline.Proofs.Arrange.Books
import Outline.Proofs.Arrange.Verdict
import Outline.Proofs.Store.Consistent

/-!
What a move to another parent leaves in every row.

The page and all below it get a new start for their chains, with the depth and the book that belong
to it. Of the parents that are left and joined only the flags are written, and all other rows stay as
they were.
-/
namespace Outline
set_option autoImplicit false

namespace Arrange

/-- The path that leads to what lies under a parent, empty at the top. -/
def pathUnder (t : Table) (pid : PageId) : List PageId := (t.stored? pid).elim [] Link.path

/-- The book of a page under a parent, which at the top is its own. -/
def bookUnder (t : Table) (nid pid : PageId) : PageId := (t.stored? pid).elim nid Link.bid

/-- What a table has become when a page was moved to another parent and given a weight. -/
structure Relocated (t : Table) (old : Link) (pid : PageId) (weight : Int32) (t' : Table) :
    Prop where
  consistent : t'.Consistent
  page : t'.link? old.nid = .ok (some { old with
    bid := bookUnder t old.nid pid
    pid := pid
    weight := weight
    depth := (pathUnder t pid).length + 1
    chain := Chain.ofList (pathUnder t pid ++ [old.nid]) })
  below : ∀ k s, t.link? k.nid = .ok (some k) → k.path = old.path ++ s → s ≠ [] →
    t'.link? k.nid = .ok (some { k with
      bid := bookUnder t old.nid pid
      depth := (pathUnder t pid).length + 1 + s.length
      chain := Chain.ofList (pathUnder t pid ++ old.nid :: s) })
  joined : ∀ p, t.link? pid = .ok (some p) →
    t'.link? pid = .ok (some { p with hasChildren := true })
  left : ∀ p, t.link? old.pid = .ok (some p) →
    t'.link? old.pid = .ok (some { p with hasChildren := t'.rows.any (·.pid == .int old.pid) })
  others : ∀ x, (∀ k, t.link? x = .ok (some k) → ¬ old.path <+: k.path) → x ≠ pid → x ≠ old.pid →
    t'.row? x = t.row? x

variable {t t' : Table} {old moved k p : Link} {pid x : PageId} {above touched s : List PageId}

theorem pathUnder_of_pathAbove (h : t.Sound) (hp : pathAbove t old.nid pid = .ok above) :
    pathUnder t pid = above := by
  rcases pathAbove_ok hp with ⟨rfl, rfl⟩ | ⟨_, parent, hs, _, _, rfl⟩
  · rw [pathUnder, h.stored?_zero]
    rfl
  · rw [pathUnder, hs]
    rfl

/-- A page that has come to lie under a parent has another book, parent, weight and chain than it
had, and the same flag. -/
theorem placed_eq (h : t.Sound) (hp : pathAbove t old.nid pid = .ok above) (weight : Int32) :
    old.placed above weight = { old with
      bid := bookUnder t old.nid pid
      pid := pid
      weight := weight
      depth := (pathUnder t pid).length + 1
      chain := Chain.ofList (pathUnder t pid ++ [old.nid]) } := by
  rw [pathUnder_of_pathAbove h hp]
  rcases pathAbove_ok hp with ⟨rfl, rfl⟩ | ⟨_, parent, hs, _, _, rfl⟩
  · rw [bookUnder, h.stored?_zero]
    rfl
  · obtain ⟨hps, rfl⟩ := h.of_stored? hs
    rw [Link.placed, hps.along_child, bookUnder, hs, hps.length_path]
    rfl

theorem moved_of_verdict {weight : Option Int32} (hs : t.stored? old.nid = some old)
    (hpid : pid ≠ old.pid) (hv : verdict t old.nid pid weight = .ok (moved, touched)) :
    ∃ above, pathAbove t old.nid pid = .ok above ∧
      moved = old.placed above (weight.getD old.weight) := by
  rw [verdict_of_ne hs hpid] at hv
  cases hp : pathAbove t old.nid pid with
  | error refusal =>
    rw [hp] at hv
    cases hv
  | ok above =>
    rw [hp] at hv
    simp only at hv
    split at hv
    · cases hv
    · cases hv
      exact ⟨above, rfl, rfl⟩

/-- Below a page that has moved, a chain ends as it did and starts with the new path. -/
theorem rehang_eq_of_path (ho : old.Sound) (hm : moved.Sound) (hk : k.Sound)
    (hn : moved.nid = old.nid) (hpath : k.path = old.path ++ s) (hne : k.nid ≠ old.nid) :
    k.rehang old moved = { k with
      bid := moved.bid
      depth := moved.depth + s.length
      chain := Chain.ofList (moved.path ++ s) } := by
  have hw : k.LiesWithin old := (Link.liesWithin_iff hk ho).2 ⟨s, hpath.symm⟩
  have hdrop : k.path.drop old.depth = s := by rw [hpath, ← ho.length_path, List.drop_left]
  have heq := hw.rehang_eq ho hm hk hn hne
  have hchain : (k.rehang old moved).chain = Chain.ofList (moved.path ++ s) := by
    rw [← hdrop]
    rfl
  have hdepth : (k.rehang old moved).depth = moved.depth + s.length := by
    rw [← hm.length_path, ← hdrop, ← List.length_append]
    rfl
  rw [heq] at hchain hdepth ⊢
  simp only at hchain hdepth
  rw [hchain, hdepth]

theorem Destined.path_eq (hd : Destined old pid t moved) (h : t.Sound) :
    moved.path = pathUnder t pid ++ [old.nid] := by
  rcases hd.path with ⟨rfl, hpath⟩ | ⟨parent, hparent, _, hpath⟩
  · rw [hpath, pathUnder, h.stored?_zero]
    rfl
  · rw [hpath, pathUnder, hparent]
    rfl

/-- The page that is moved is stored with its new link, since neither parent is the page itself. -/
theorem Rehung.stored?_moved (hr : Rehung t old pid moved t') (h : t.Sound)
    (hs : t.stored? old.nid = some old) : t'.stored? old.nid = some moved := by
  have ho := (h.of_stored? hs).1
  have hd := hr.destined h ho
  obtain ⟨flag, _, hstored⟩ := hr.stored
  have hmove : old.moveOver old moved = moved := if_pos rfl
  have hleft : moved.nid ≠ old.pid := hd.page ▸ ho.other.symm
  rw [hstored, hs, Option.map_some, Link.carried, hmove, Link.flagged_of_ne hleft,
    Link.flagged_of_ne hd.sound.other.symm]

section Rehung

variable (hr : Rehung t old pid moved t') (h : t.Whole) (hs : t.stored? old.nid = some old)

include hr h hs

/-- Neither parent lies within the page. -/
theorem Rehung.ne_parents_of_liesWithin (hk : t.stored? k.nid = some k) (hw : k.LiesWithin old) :
    k.nid ≠ old.pid ∧ k.nid ≠ pid := by
  have ho := (h.sound.of_stored? hs).1
  constructor
  · intro heq
    have hplace := h.linked.place old k hs (heq ▸ hk)
    have hlen := hw.2.length_le
    rw [hplace, List.length_append, List.length_singleton] at hlen
    omega
  · rcases (hr.destined h.sound ho).path with ⟨rfl, _⟩ | ⟨parent, hparent, hfree, _⟩
    · exact (h.sound.of_stored? hk).1.nid_ne_zero
    · rintro rfl
      rw [hk] at hparent
      cases hparent
      exact hfree (hw.2.subset ho.nid_mem_path)

theorem Rehung.stored?_page : t'.stored? old.nid = some moved := hr.stored?_moved h.sound hs

theorem Rehung.stored?_below (hk : t.stored? k.nid = some k) (hpath : k.path = old.path ++ s)
    (hne : s ≠ []) :
    t'.stored? k.nid = some { k with
      bid := moved.bid
      depth := moved.depth + s.length
      chain := Chain.ofList (moved.path ++ s) } := by
  have ho := (h.sound.of_stored? hs).1
  have hks := (h.sound.of_stored? hk).1
  have hd := hr.destined h.sound ho
  obtain ⟨flag, _, hstored⟩ := hr.stored
  have hko : k.nid ≠ old.nid := by
    intro heq
    rw [eq_of_nid hs hk heq] at hpath
    exact hne (List.self_eq_append_right.1 hpath)
  have hw : k.LiesWithin old := (Link.liesWithin_iff hks ho).2 ⟨s, hpath.symm⟩
  have hmove : k.moveOver old moved = k.rehang old moved := by
    rw [Link.moveOver, if_neg hko, if_pos hw]
  have hnid : (k.rehang old moved).nid = k.nid := by
    rw [hw.rehang_eq ho hd.sound hks hd.page hko]
  obtain ⟨hleft, hjoined⟩ := hr.ne_parents_of_liesWithin h hs hk hw
  rw [← hnid] at hleft hjoined
  rw [hstored, hk, Option.map_some, Link.carried, hmove, hd.parent, Link.flagged_of_ne hleft,
    Link.flagged_of_ne hjoined, rehang_eq_of_path ho hd.sound hks hd.page hpath hko]

theorem Rehung.stored?_joined (hpid : pid ≠ old.pid) (hp : t.stored? pid = some p) :
    t'.stored? pid = some { p with hasChildren := true } := by
  have hd := hr.destined h.sound (h.sound.of_stored? hs).1
  obtain ⟨flag, _, hstored⟩ := hr.stored
  obtain ⟨_, rfl⟩ := h.sound.of_stored? hp
  have hout : ¬ p.LiesWithin old := fun hw => (hr.ne_parents_of_liesWithin h hs hp hw).2 rfl
  rw [hstored, hp, Option.map_some, hd.carried_outside hs hp hout, Link.flagged_of_ne hpid,
    Link.flagged, if_pos rfl]

theorem Rehung.stored?_left (hpid : pid ≠ old.pid) (hp : t.stored? old.pid = some p) :
    t'.stored? old.pid =
      some { p with hasChildren := t'.rows.any (·.pid == .int old.pid) } := by
  have hd := hr.destined h.sound (h.sound.of_stored? hs).1
  have hlinked : t'.Linked := hr.linkedBut h.sound hs h.linked
  obtain ⟨flag, _, hstored⟩ := hr.stored
  obtain ⟨_, hpn⟩ := h.sound.of_stored? hp
  rw [← hpn] at hp hpid ⊢
  have hout : ¬ p.LiesWithin old := fun hw => (hr.ne_parents_of_liesWithin h hs hp hw).1 hpn
  have haway : (p.flagged old.pid flag).nid ≠ pid := by
    rw [Link.nid_flagged]
    exact hpid.symm
  have hp' : t'.stored? p.nid = some { p with hasChildren := flag } := by
    rw [hstored, hp, Option.map_some, hd.carried_outside hs hp hout, Link.flagged_of_ne haway,
      Link.flagged, if_pos hpn]
  have hflag : flag = t'.rows.any (·.pid == .int p.nid) :=
    hlinked.mark_eq (l := { p with hasChildren := flag }) hr.sound hp'
  rw [hp', ← hflag]

theorem Rehung.row?_of_outside (hx : ∀ k, t.stored? x = some k → ¬ old.path <+: k.path)
    (hjoined : x ≠ pid) (hleft : x ≠ old.pid) : t'.row? x = t.row? x := by
  have hd := hr.destined h.sound (h.sound.of_stored? hs).1
  obtain ⟨flag, _, hstored⟩ := hr.stored
  rw [Table.row?_of_stored? hr.sound, Table.row?_of_stored? h.sound, hstored]
  cases hk : t.stored? x with
  | none => rfl
  | some k =>
    obtain ⟨_, rfl⟩ := h.sound.of_stored? hk
    have hout : ¬ k.LiesWithin old := fun hw => hx k hk hw.2
    rw [Option.map_some, hd.carried_eq_self hs hk hout hleft hjoined]

/-- The page, what lies below it, its parents and all others, each as a move leaves it. -/
theorem Rehung.relocated {weight : Int32} (hpid : pid ≠ old.pid)
    (hp : pathAbove t old.nid pid = .ok above) (hmoved : moved = old.placed above weight) :
    Relocated t old pid weight t' := by
  have hlink := Table.link?_eq h.sound
  have hlink' := Table.link?_eq hr.sound
  have hpath := (hr.destined h.sound (h.sound.of_stored? hs).1).path_eq h.sound
  rw [placed_eq h.sound hp] at hmoved
  have hbid : moved.bid = bookUnder t old.nid pid := by rw [hmoved]
  have hdepth : moved.depth = (pathUnder t pid).length + 1 := by rw [hmoved]
  constructor
  · exact Table.consistent_iff_whole.2
      ⟨hr.sound, hr.linkedBut h.sound hs h.linked, hr.closed h.sound hs h.closed⟩
  · rw [hlink', hr.stored?_page h hs, hmoved]
  · intro k s hk hks hne
    rw [hlink, Except.ok.injEq] at hk
    rw [hlink', hr.stored?_below h hs hk hks hne, hpath, hdepth, hbid, List.append_assoc]
    rfl
  · intro p hp
    rw [hlink, Except.ok.injEq] at hp
    rw [hlink', hr.stored?_joined h hs hpid hp]
  · intro p hp
    rw [hlink, Except.ok.injEq] at hp
    rw [hlink', hr.stored?_left h hs hpid hp]
  · intro x hx
    simp only [hlink, Except.ok.injEq] at hx
    exact hr.row?_of_outside h hs hx

end Rehung

end Arrange
end Outline
