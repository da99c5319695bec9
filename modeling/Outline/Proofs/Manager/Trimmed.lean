import Outline.Proofs.Forest.Trimmed
import Outline.Proofs.Manager.Around
import Outline.Proofs.Manager.Subtree

/-!
What is told of a book around a page in focus and down to a limit, and what of the whole book.

A page in focus and a limit only leave rows out, and with a row all those below it. So what a viewer
is told is what is told of the whole book without the pages of these rows, apart from the marks.
-/
namespace Outline
set_option autoImplicit false

/-- The pages around a page, and itself, are those of its path. -/
theorem Link.Sound.mem_active_iff {k : Link} (h : k.Sound) {nid : PageId} (hne : nid ≠ 0) :
    nid = k.nid ∨ nid ∈ k.trail ↔ nid ∈ k.path := by
  constructor
  · rintro (rfl | hmem)
    · exact h.nid_mem_path
    · exact (h.mem_trail hmem).resolve_left hne
  · intro hmem
    rw [h.valid.path_eq, List.mem_append, List.mem_singleton] at hmem
    rcases hmem with hup | heq
    · -- A page above another one is not at the ninth level, so it is not missing from the trail.
      refine .inr (h.mem_trail_of_mem (List.dropLast_prefix _) ?_ hup)
      have hpos := h.depth_pos
      have hle := h.depth_le
      rw [List.length_dropLast, h.length_path]
      omega
    · exact .inl heq

namespace Manager

variable {m : Manager} {t : Table} {b : PageId} {l : Link} {focus : Option Link} {d : Option Nat}
  {viewer : Viewer}

/-- Whether a page stays around a page in focus and down to a limit: it lies no deeper than the
limit, and at the top or directly below a page on the path of the one in focus. -/
def stays (focus : Option Link) (d : Option Nat) (l : Link) : Bool :=
  d.all (l.depth ≤ ·) && focus.all fun k => l.pid == 0 || k.isWithin l.pid

/-- Whether a page is the one in focus or lies above it. -/
def onWay (focus : Option Link) (nid : PageId) : Bool := focus.any (·.isWithin nid)

theorem stays_iff :
    stays focus d l = true ↔
      (∀ limit ∈ d, l.depth ≤ limit) ∧ ∀ k ∈ focus, l.pid = 0 ∨ l.pid ∈ k.path := by
  simp [stays, Link.isWithin, Option.all_eq_true]

theorem onWay_iff {nid : PageId} : onWay focus nid = true ↔ ∃ k ∈ focus, nid ∈ k.path := by
  simp [onWay, Link.isWithin, Option.any_eq_true]

theorem stays_iff_leads (h : t.Whole) (hfocus : ∀ k ∈ focus, t.stored? k.nid = some k)
    (hl : t.stored? l.nid = some l) :
    stays focus d l = true ↔
      (∀ limit ∈ d, l.depth ≤ limit) ∧ ∀ k ∈ focus, l.path.dropLast <+: k.path := by
  rw [stays_iff]
  exact and_congr_right fun _ => forall₂_congr fun k hk => (h.leads_iff (hfocus k hk) hl).symm

/-- Around a page in focus and down to a limit, the rows of the book are found whose pages stay. -/
theorem chosen_bookQuery (h : t.Whole) (hfocus : ∀ k ∈ focus, t.stored? k.nid = some k)
    (hd : ∀ limit ∈ d, limit ≤ Word.maxUnsigned32) :
    t.chosen (bookQuery b focus d) = (t.chosen (Query.book b)).filter (stays focus d) := by
  have hs := h.sound
  refine Table.eq_of_mem_iff (Table.pairwise_chosen hs _)
    ((Table.pairwise_chosen hs _).sublist List.filter_sublist) fun l => ?_
  rw [Table.mem_chosen hs, List.mem_filter, Table.mem_chosen_book hs, and_assoc]
  refine and_congr_right fun hl => ?_
  rw [wants_around_iff h hfocus hd hl, stays_iff_leads h hfocus hl]
  exact and_congr_right fun _ => and_comm

/-- With a page all pages above it stay. -/
theorem keepsAbove_stays (h : t.Whole) (hfocus : ∀ k ∈ focus, t.stored? k.nid = some k) :
    BookForest.KeepsAbove (stays focus d) (t.chosen (Query.book b)) := by
  have hstored : ∀ l ∈ t.chosen (Query.book b), t.stored? l.nid = some l :=
    fun l hl => ((Table.mem_chosen_book h.sound).1 hl).1
  intro p hp x hx hpre hkept
  have hlen := hpre.length_le
  rw [(h.sound.of_stored? (hstored p hp)).1.length_path,
    (h.sound.of_stored? (hstored x hx)).1.length_path] at hlen
  rw [stays_iff_leads h hfocus (hstored x hx)] at hkept
  rw [stays_iff_leads h hfocus (hstored p hp)]
  exact ⟨fun limit hlimit => hlen.trans (hkept.1 limit hlimit),
    fun k hk => (BookForest.prefix_dropLast hpre).trans (hkept.2 k hk)⟩

/-- The pages on the way to the one in focus stay, as long as they lie no deeper than the limit. -/
theorem stays_of_onWay (h : t.Whole) (hfocus : ∀ k ∈ focus, t.stored? k.nid = some k)
    (hl : t.stored? l.nid = some l) (hway : onWay focus l.nid = true)
    (hlimit : ∀ limit ∈ d, l.depth ≤ limit) : stays focus d l = true := by
  obtain ⟨k, hk, hmem⟩ := onWay_iff.1 hway
  refine (stays_iff_leads h hfocus hl).2 ⟨hlimit, fun k' hk' => ?_⟩
  cases Option.mem_unique hk hk'
  exact (List.dropLast_prefix _).trans (h.path_of_mem hl k (hfocus k hk) hmem)

theorem contains_activePages (h : t.Sound) (hfocus : ∀ k ∈ focus, t.stored? k.nid = some k)
    (hl : t.stored? l.nid = some l) :
    (activePages focus).contains l.nid = onWay focus l.nid := by
  cases focus with
  | none => rfl
  | some k =>
    have hks := (h.of_stored? (hfocus k rfl)).1
    rw [Bool.eq_iff_iff, List.contains_iff_mem, activePages, List.mem_cons,
      hks.mem_active_iff (h.of_stored? hl).1.nid_ne_zero]
    simp [onWay, Link.isWithin]

/-- The forest around a page in focus and down to a limit is made of the rows that stay. -/
theorem build_bookQuery (h : t.Whole) (hfocus : ∀ k ∈ focus, t.stored? k.nid = some k)
    (hd : ∀ limit ∈ d, limit ≤ Word.maxUnsigned32) :
    BookForest.build (activePages focus).contains 1 (t.chosen (bookQuery b focus d)) =
      BookForest.ofRows (onWay focus) ((t.chosen (Query.book b)).filter (stays focus d)) := by
  have hstored : ∀ l ∈ (t.chosen (Query.book b)).filter (stays focus d),
      t.stored? l.nid = some l :=
    fun l hl => ((Table.mem_chosen_book h.sound).1 (List.mem_of_mem_filter hl)).1
  rw [chosen_bookQuery h hfocus hd, BookForest.build, BookForest.rowsFrom_eq_self]
  · exact BookForest.ofRows_congr fun l hl => contains_activePages h.sound hfocus (hstored l hl)
  · exact fun l hl => (h.sound.of_stored? (hstored l hl)).1.depth_pos

theorem stored_of_mem_whole (h : m.table.Sound)
    (hl : l ∈ (forViewer m.content viewer (wholeBook m b)).links) :
    m.table.stored? l.nid = some l := by
  have hrow := BookForest.links_shown _ _ hl
  rw [wholeBook, BookForest.links_ofRows] at hrow
  exact ((Table.mem_chosen_book h).1 hrow).1

/-- Who is shown all pages of a book is told of all its rows. -/
theorem links_wholeBook (h : m.table.Whole)
    (hshown : ∀ r ∈ m.table.rowsOf b, m.content.shows viewer r.nid = true) :
    (forViewer m.content viewer (wholeBook m b)).links.Perm
      ((m.table.rowsOf b).filterMap Row.link?) := by
  have hall : (m.table.rowsOf b).filter (m.showsRow viewer) = m.table.rowsOf b := by
    rw [List.filter_eq_self]
    intro r hr
    obtain ⟨hmem, hbid⟩ := List.mem_filter.1 hr
    obtain ⟨l, hl, rfl⟩ := h.sound.mem_rows_iff.1 hmem
    have hlb : l.bid = b := Cell.int.inj (beq_iff_eq.1 hbid)
    rw [showsRow, Row.link?_ofLink (h.sound.of_stored? hl).1.valid, Option.any_some,
      List.all_eq_true]
    intro id hid
    obtain ⟨p, hp, hpb⟩ := h.on_path hl id hid
    obtain ⟨_, rfl⟩ := h.sound.of_stored? hp
    refine hshown (.ofLink p) (List.mem_filter.2 ⟨(h.sound.row_mem hp).1, ?_⟩)
    rw [hlb] at hpb
    exact beq_iff_eq.2 (congrArg Cell.int hpb)
  have hperm := (links_forViewer (b := b) h viewer).filterMap Row.link?
  have hread : ∀ l ∈ (forViewer m.content viewer (wholeBook m b)).links,
      (Row.link? ∘ Row.ofLink) l = some l := by
    intro l hl
    exact Row.link?_ofLink (h.sound.of_stored? (stored_of_mem_whole h.sound hl)).1.valid
  rwa [hall, List.filterMap_map, List.filterMap_congr hread, List.filterMap_some] at hperm

/-- In a consistent table, whatever the content and whoever the viewer is, a book is told around a
page in focus and down to a limit as it is told without them, but for the marks and for the pages
that do not stay: those that lie deeper than the limit, and those that are neither at the top nor
directly below a page on the path of the one in focus. Just the pages on that path are marked, the
one in focus among them, and none of them goes but for the limit. And who is shown all pages of the
book is told of all its rows when there is no page in focus and no limit. -/
theorem bookForest_trimmed (m : Manager) (h : m.table.Consistent) (b : PageId)
    (focus : Option Link) (hfocus : ∀ k ∈ focus, m.table.link? k.nid = .ok (some k))
    (d : Option Nat) (hd : ∀ limit ∈ d, limit ≤ Word.maxUnsigned32) (viewer : Viewer) :
    ∃ whole m₁ f m₂, bookForest b none none viewer { m with cache := .empty } = .ok whole m₁ ∧
      bookForest b (focus.map Link.nid) d viewer { m with cache := .empty } = .ok f m₂ ∧
      f = whole.trimmed (stays focus d) (onWay focus) ∧
      f.links = whole.links.filter (stays focus d) ∧
      (∀ item ∈ f.preorder, item.active = true ↔ ∃ k ∈ focus, item.link.nid ∈ k.path) ∧
      (∀ l ∈ whole.links, onWay focus l.nid = true → (∀ limit ∈ d, l.depth ≤ limit) →
        l ∈ f.links) ∧
      ((∀ r ∈ m.table.rowsOf b, m.content.shows viewer r.nid = true) →
        whole.links.Perm ((m.table.rowsOf b).filterMap Row.link?)) := by
  have hw := h.whole
  have hstored : ∀ k ∈ focus, m.table.stored? k.nid = some k :=
    fun k hk => (Table.link?_ok_iff hw.sound).1 (hfocus k hk)
  have hpre := hw.preordered_book b
  have hkeep := keepsAbove_stays (b := b) (d := d) hw hstored
  have hselect : m.table.select (bookQuery b focus d) = .ok _ := Table.select_eq hw.sound _
  obtain ⟨m₁, hwhole⟩ := bookForest_whole hw b viewer
  obtain ⟨m₂, hrun⟩ := bookForest_anew viewer hfocus hselect
  have htrimmed : forViewer m.content viewer (BookForest.build (activePages focus).contains 1
      (m.table.chosen (bookQuery b focus d))) =
      (forViewer m.content viewer (wholeBook m b)).trimmed (stays focus d) (onWay focus) := by
    rw [build_bookQuery hw hstored hd]
    exact hpre.shown_filter hkeep (Table.nodup_chosen hw.sound _)
  have hlinks : ((forViewer m.content viewer (wholeBook m b)).trimmed (stays focus d)
      (onWay focus)).links = _ := hpre.links_shown_trimmed hkeep
  rw [htrimmed] at hrun
  refine ⟨_, m₁, _, m₂, hwhole, hrun, rfl, hlinks, ?_, ?_, links_wholeBook hw⟩
  · intro item hitem
    rw [BookForest.active_of_mem_trimmed hitem, onWay_iff]
  · intro l hl hway hlimit
    rw [hlinks, List.mem_filter]
    exact ⟨hl, stays_of_onWay hw hstored (stored_of_mem_whole hw.sound hl) hway hlimit⟩

/-- Around the page at the ninth level, and with a limit that it meets, everyone is told of that
page, which is marked, and is not told of the one that lies below a page beside the way to it. -/
theorem bookForest_trimmed_ninthLevel :
    (ninthLevel.table.Consistent ∧
      (∀ k ∈ some ninthPage, ninthLevel.table.link? k.nid = .ok (some k)) ∧
      ∀ limit ∈ some 9, limit ≤ Word.maxUnsigned32) ∧
    ∃ whole m₁ f m₂, bookForest 1 none none .everyone { ninthLevel with cache := .empty } =
        .ok whole m₁ ∧
      bookForest 1 (some 9) (some 9) .everyone { ninthLevel with cache := .empty } = .ok f m₂ ∧
      f = whole.trimmed (stays (some ninthPage) (some 9)) (onWay (some ninthPage)) ∧
      (∃ item ∈ f.preorder, item.link = ninthPage ∧ item.active = true) ∧
      .along [1, 11, 12] false 0 ∈ whole.links ∧ .along [1, 11, 12] false 0 ∉ f.links := by
  have hconsistent : ninthLevel.table.Consistent := by decide +kernel
  have hfocus : ∀ k ∈ some ninthPage, ninthLevel.table.link? k.nid = .ok (some k) := by
    rintro _ ⟨⟩
    decide +kernel
  have hd : ∀ limit ∈ some 9, limit ≤ Word.maxUnsigned32 := by
    rintro _ ⟨⟩
    decide
  obtain ⟨whole, m₁, f, m₂, hwhole, hrun, htrimmed, hlinks, hmarks, hway, hrows⟩ :=
    bookForest_trimmed ninthLevel hconsistent 1 (some ninthPage) hfocus (some 9) hd .everyone
  have hall := hrows (by decide +kernel)
  have hninth : ninthPage ∈ f.links :=
    hway ninthPage (hall.mem_iff.2 (by decide +kernel)) (by decide) (by decide)
  have hbeside : Link.along [1, 11, 12] false 0 ∈ whole.links :=
    hall.mem_iff.2 (by decide +kernel)
  obtain ⟨item, hitem, hlink⟩ := List.mem_map.1 hninth
  refine ⟨⟨hconsistent, hfocus, hd⟩, whole, m₁, f, m₂, hwhole, hrun, htrimmed,
    ⟨item, hitem, hlink, (hmarks item hitem).2 ⟨ninthPage, rfl, ?_⟩⟩, hbeside, ?_⟩
  · rw [hlink]
    decide
  · rw [hlinks, List.mem_filter]
    exact fun hleft => absurd hleft.2 (by decide)

end Manager
end Outline
