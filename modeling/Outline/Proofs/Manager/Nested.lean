import Outline.Proofs.Manager.Focus
import Outline.Proofs.Manager.Run
import Outline.Proofs.Manager.SharedKeys
import Outline.Proofs.Store.Holds

/-!
Pages below others in the forests that are told.

Forests are made of rows by their depths alone. So a page is told below one that is not above it
when the row is missing that its path has at that level, as it is when a page was removed from above
others.
-/
namespace Outline.Manager
set_option autoImplicit false

variable {t : Table} {bid : PageId} {l p x : Link} {focus : Option Link} {d : Option Nat}
  {tree : Item × BookForest} {f : BookForest}

theorem isAtMost_of_le {a b : Nat} {limit : Int64} (hle : a ≤ b) (hb : b ≤ maxDepth)
    (h : (Table.depthCell b).isAtMost limit = true) :
    (Table.depthCell a).isAtMost limit = true := by
  have hab := Table.le_depthCell (hle.trans hb) hb
  rw [decide_eq_true hle, Table.depthCell, Table.depthCell, Cell.le_int_iff] at hab
  simp only [Cell.isAtMost, Table.depthCell, Bool.and_eq_true, Cell.le_int_iff] at h ⊢
  exact ⟨rfl, Int64.le_trans hab h.2⟩

theorem wants_bookQuery_iff :
    (bookQuery bid focus d).wants (.ofLink l) = true ↔
      l.bid = bid ∧ (∀ k ∈ focus, l.pid ∈ k.trail) ∧
        ∀ limit ∈ d, (Table.depthCell l.depth).isAtMost (Int64.ofNat limit) = true := by
  have hlimit : (d.all fun limit => (Row.ofLink l).depth.isAtMost (Int64.ofNat limit)) = true ↔
      ∀ limit ∈ d, (Table.depthCell l.depth).isAtMost (Int64.ofNat limit) = true :=
    Option.all_eq_true _ _
  rw [Query.wants_iff]
  cases focus with
  | none =>
    constructor
    · rintro ⟨hbid, _, hdepth, _⟩
      exact ⟨Cell.int.inj hbid, nofun, hlimit.1 hdepth⟩
    · rintro ⟨rfl, _, hdepth⟩
      exact ⟨rfl, rfl, hlimit.2 hdepth, rfl, rfl⟩
  | some k =>
    have hparents : _ ↔ l.pid ∈ k.trail :=
      Query.parents_under (q := (Query.book bid).downTo d) (List.cons_ne_nil _ _)
    constructor
    · rintro ⟨hbid, hnamed, hdepth, _⟩
      refine ⟨Cell.int.inj hbid, ?_, hlimit.1 hdepth⟩
      rintro _ ⟨⟩
      exact hparents.1 hnamed
    · rintro ⟨rfl, hnamed, hdepth⟩
      exact ⟨rfl, hparents.2 (hnamed k rfl), hlimit.2 hdepth, rfl, rfl⟩

/-- Whether pages lie below pages of their own paths only: wherever a row is stored along the path
of the lower one at the level of the upper one, and the path leads to the page in focus, if there is
one; and in a consistent table anywhere. -/
def WellNested (t : Table) (focus : Option Link) (f : BookForest) : Prop :=
  ∀ tree ∈ f.subtrees, ∀ x ∈ BookForest.links tree.2,
    (t.Holds (x.path.take tree.1.link.depth) ∧ ∀ k ∈ focus, x.path.dropLast <+: k.path) ∨
      t.Consistent → tree.1.link.nid ∈ x.path

theorem WellNested.shown (h : WellNested t focus f) (title? : PageId → Option String) :
    WellNested t focus (f.withTitles title?).sort := by
  intro tree htree x hx
  obtain ⟨source, hsource, hlink, hbelow⟩ := BookForest.mem_subtrees_shown htree
  rw [hbelow] at hx
  rw [hlink]
  exact h source hsource x (BookForest.links_shown title? source.2 hx)

theorem wellNested_book (h : t.Sound) (hfocus : ∀ k ∈ focus, t.stored? k.nid = some k) :
    WellNested t focus ((Wanted.book bid focus d).fresh t) := by
  intro tree htree x hx hway
  have hbuild : BookForest.rowsFrom 1 none (t.chosen (bookQuery bid focus d)) = _ :=
    BookForest.rowsFrom_eq_self fun l hl => (Table.sound_of_mem_chosen h hl).depth_pos
  rw [Wanted.fresh, BookForest.build, hbuild] at htree
  have hrow := BookForest.mem_rows_of_mem_below htree hx
  have htop := Table.sound_of_mem_chosen h (BookForest.mem_of_mem_subtrees htree)
  obtain ⟨hstored, hwanted⟩ := (Table.mem_chosen h).1 hrow
  obtain ⟨hxs, _⟩ := h.of_stored? hstored
  obtain ⟨hbid, hnamed, hlimit⟩ := wants_bookQuery_iff.1 hwanted
  have hleads : t.Holds (x.path.take tree.1.link.depth) ∧
      ∀ k ∈ focus, x.path.dropLast <+: k.path := by
    rcases hway with hway | hconsistent
    · exact hway
    · have hw := hconsistent.whole
      exact ⟨hw.holds_take htop.depth_pos x hstored,
        fun k hk => hw.leads_of_named (hfocus k hk) hstored (hnamed k hk)⟩
  refine Table.mem_path_of_wanted h htree hx hleads.1 fun p hp hpre hlevel => ?_
  refine wants_bookQuery_iff.2 ⟨(hxs.bid_of_starts hp hpre).trans hbid, ?_, ?_⟩
  · intro k hk
    have hup := BookForest.prefix_dropLast hpre
    exact (h.of_stored? (hfocus k hk)).1.pid_mem_trail hp (hup.trans (hleads.2 k hk))
  · intro limit hd
    have hdeeper := BookForest.depth_lt_of_mem_below htree hx
    exact isAtMost_of_le (by omega) hxs.depth_le (hlimit limit hd)

theorem wellNested_below (h : t.Sound) (hl : t.stored? l.nid = some l) :
    WellNested t none ((Wanted.below l).fresh t) := by
  intro tree htree x hx hway
  obtain ⟨hls, _⟩ := h.of_stored? hl
  have hwithin : ∀ k ∈ t.chosen ((Query.book l.bid).within l), k.Sound ∧ k.bid = l.bid ∧
      l.path <+: k.path := by
    intro k hk
    have hks := Table.sound_of_mem_chosen h hk
    exact ⟨hks, (Query.wants_within hks hls).1 ((Table.mem_chosen h).1 hk).2⟩
  have hdepth : ∀ k ∈ t.chosen ((Query.book l.bid).within l), l.depth ≤ k.depth := by
    intro k hk
    obtain ⟨hks, _, hpre⟩ := hwithin k hk
    rw [← hls.length_path, ← hks.length_path]
    exact hpre.length_le
  rw [Wanted.fresh, BookForest.build, BookForest.rowsFrom_eq_self hdepth] at htree
  have hrow := BookForest.mem_rows_of_mem_below htree hx
  obtain ⟨hts, _, htop⟩ := hwithin _ (BookForest.mem_of_mem_subtrees htree)
  obtain ⟨hxs, hbid, hxl⟩ := hwithin x hrow
  have hholds : t.Holds (x.path.take tree.1.link.depth) := by
    rcases hway with hway | hconsistent
    · exact hway.1
    · exact hconsistent.whole.holds_take hts.depth_pos x ((Table.mem_chosen h).1 hrow).1
  refine Table.mem_path_of_wanted h htree hx hholds fun p hp hpre hlevel => ?_
  refine (Query.wants_within hp hls).2 ⟨(hxs.bid_of_starts hp hpre).trans hbid, ?_⟩
  refine List.prefix_of_prefix_length_le hxl hpre ?_
  rw [hp.length_path, hlevel, ← hts.length_path]
  exact htop.length_le

section Anew

variable {m : Manager}

theorem bookForest_nested (h : m.table.Sound) (bid : PageId) (focus : Option PageId)
    (d : Option Nat) (viewer : Viewer) :
    ∃ f m', bookForest bid focus d viewer { m with cache := .empty } = .ok f m' ∧
      WellNested m.table (focus.bind m.table.stored?) f := by
  have hselect : ∀ k : Option Link, m.table.select (bookQuery bid k d) =
      .ok (m.table.chosen (bookQuery bid k d)) := fun k => Table.select_eq h _
  cases focus with
  | none =>
    have hstored : ∀ k ∈ (none : Option Link), m.table.stored? k.nid = some k := nofun
    obtain ⟨m', hrun⟩ := bookForest_unfocused viewer (hselect none)
    exact ⟨_, m', hrun, (wellNested_book h hstored).shown _⟩
  | some nid =>
    cases hl : m.table.stored? nid with
    | none =>
      have hlook : look (·.link? nid) { m with cache := .empty } =
          .ok none { m with cache := .empty } := look_of_ok (by rw [Table.link?_eq h, hl])
      exact ⟨.nil, _, (bind_of_ok hlook).trans rfl, nofun⟩
    | some l =>
      obtain ⟨_, rfl⟩ := h.of_stored? hl
      have hstored : ∀ k ∈ some l, m.table.stored? k.nid = some k := by
        rintro _ ⟨⟩
        exact hl
      have hfocus : ∀ k ∈ some l, m.table.link? k.nid = .ok (some k) := by
        rintro _ ⟨⟩
        rw [Table.link?_eq h, hl]
      obtain ⟨m', hrun⟩ := bookForest_anew viewer hfocus (hselect (some l))
      refine ⟨_, m', hrun, ?_⟩
      rw [Option.bind_some, hl]
      exact (wellNested_book h hstored).shown _

theorem subtree_nested (h : m.table.Sound) (nid : PageId) (viewer : Viewer) :
    ∃ f m', subtree nid viewer { m with cache := .empty } = .ok f m' ∧
      WellNested m.table none f := by
  have hlook : look (·.link? nid) { m with cache := .empty } =
      .ok (m.table.stored? nid) { m with cache := .empty } := look_of_ok (Table.link?_eq h nid)
  cases hl : m.table.stored? nid with
  | none =>
    rw [hl] at hlook
    exact ⟨.nil, _, (bind_of_ok hlook).trans rfl, nofun⟩
  | some l =>
    rw [hl] at hlook
    obtain ⟨events, hkept⟩ := Wanted.kept_below { m with cache := .empty } h l
    refine ⟨_, _, (bind_of_ok hlook).trans ((bind_of_ok hkept).trans rfl), ?_⟩
    exact (wellNested_below h (h.stored?_nid hl)).shown _

end Anew

/-- After any run, whatever is told of a whole book, around a page in focus or below a page, made
anew from the rows: a page lies below one that is not on its path only where no row is stored along
its path at the level of that one, or where its path does not lead to the page in focus. -/
theorem run_nested (content : Content) (settings : Settings) (as : List Action) (viewer : Viewer) :
    (∀ (bid : PageId) (focus : Option PageId) (d : Option Nat), ∃ f m',
      bookForest bid focus d viewer { (blank content settings).run as with cache := .empty } =
        .ok f m' ∧
      WellNested ((blank content settings).run as).table
        (focus.bind ((blank content settings).run as).table.stored?) f) ∧
    ∀ nid : PageId, ∃ f m',
      subtree nid viewer { (blank content settings).run as with cache := .empty } = .ok f m' ∧
      WellNested ((blank content settings).run as).table none f := by
  have h := ((ready_blank content settings).run as).sound
  exact ⟨fun bid focus d => bookForest_nested h bid focus d viewer,
    fun nid => subtree_nested h nid viewer⟩

/-- Three published pages. -/
def publishedPages : Content := ⟨[(1, ⟨"One", true⟩), (2, ⟨"Two", true⟩), (4, ⟨"Four", true⟩)]⟩

/-- A page with a child is removed, after which its sibling is the last row before the child. -/
def leftBehind : List Action :=
  [.change (.addRoot 1 0), .change (.addChild 2 1 0), .change (.addChild 3 1 0),
    .change (.addChild 4 3 0), .change (.delete 3)]

/-- The child that was left behind is told below the sibling of its removed parent. -/
theorem run_misnested :
    ¬ ∀ (content : Content) (as : List Action) (viewer : Viewer) (f : BookForest) (m' : Manager),
      bookForest 1 none none viewer { (blank content {}).run as with cache := .empty } = .ok f m' →
        ∀ tree ∈ f.subtrees, ∀ x ∈ BookForest.links tree.2, tree.1.link.nid ∈ x.path := by
  intro h
  have hselect : ((blank publishedPages {}).run leftBehind).table.select (bookQuery 1 none none) =
      .ok [.along [1] true 0, .along [1, 2] false 0, .along [1, 3, 4] false 0] := by cbv
  obtain ⟨m', hrun⟩ := bookForest_unfocused .everyone hselect
  have hforest : forViewer ((blank publishedPages {}).run leftBehind).content .everyone
      (BookForest.build (activePages none).contains 1
        [.along [1] true 0, .along [1, 2] false 0, .along [1, 3, 4] false 0]) =
      .cons ⟨.along [1] true 0, some "One", false⟩
        (.cons ⟨.along [1, 2] false 0, some "Two", false⟩
          (.cons ⟨.along [1, 3, 4] false 0, some "Four", false⟩ .nil .nil) .nil) .nil := by cbv
  rw [hforest] at hrun
  have hnested := h publishedPages leftBehind .everyone _ m' hrun
    (⟨.along [1, 2] false 0, some "Two", false⟩, _) (List.mem_cons_of_mem _ List.mem_cons_self)
    (.along [1, 3, 4] false 0) List.mem_cons_self
  exact absurd hnested (by decide)

end Outline.Manager
