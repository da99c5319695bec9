import Outline.Proofs.Manager.Nested

/-!
Which pages are found around a page in focus.

Rows are found by the parents they name, each of which is one of the pages around the page in focus.
In a consistent table these are the pages whose paths lead to it, so none of them lies more than one
level below it.
-/
namespace Outline.Manager
set_option autoImplicit false

variable {m : Manager} {t : Table} {bid : PageId} {l k : Link} {focus : Option Link}
  {d : Option Nat}

/-- A stored page is wanted around a page in focus when its own path leads there, and when it does not
lie deeper than the limit. -/
theorem wants_around_iff (h : t.Whole) (hfocus : ∀ k ∈ focus, t.stored? k.nid = some k)
    (hd : ∀ limit ∈ d, limit ≤ Word.maxUnsigned32) (hl : t.stored? l.nid = some l) :
    (bookQuery bid focus d).wants (.ofLink l) = true ↔
      l.bid = bid ∧ (∀ k ∈ focus, l.path.dropLast <+: k.path) ∧ ∀ limit ∈ d, l.depth ≤ limit := by
  have hls := (h.sound.of_stored? hl).1
  have hsmall : l.depth ≤ Word.maxUnsigned32 := hls.depth_le.trans (by decide)
  rw [wants_bookQuery_iff]
  refine and_congr_right fun _ => and_congr ?_ ?_
  · refine forall₂_congr fun k hk => ?_
    have hks := (h.sound.of_stored? (hfocus k hk)).1
    exact ⟨h.leads_of_named (hfocus k hk) hl, hks.pid_mem_trail hls⟩
  · exact forall₂_congr fun limit hlimit => Table.isAtMost_depthCell hsmall (hd limit hlimit)

/-- No page around a page in focus lies more than one level below it. -/
theorem chosen_around (h : t.Whole) (hl : t.stored? l.nid = some l) :
    t.chosen (bookQuery l.bid (some l) (some (l.depth + 1))) =
      t.chosen (bookQuery l.bid (some l) none) := by
  have hls := (h.sound.of_stored? hl).1
  have hfocus : ∀ k ∈ some l, t.stored? k.nid = some k := by
    rintro _ ⟨⟩
    exact hl
  have hsmall : ∀ limit ∈ some (l.depth + 1), limit ≤ Word.maxUnsigned32 := by
    rintro _ ⟨⟩
    exact (Nat.succ_le_succ hls.depth_le).trans (by decide)
  have hnone : ∀ limit ∈ (none : Option Nat), limit ≤ Word.maxUnsigned32 := nofun
  refine Table.chosen_congr h.sound fun k hk => ?_
  rw [Bool.eq_iff_iff, wants_around_iff h hfocus hsmall hk, wants_around_iff h hfocus hnone hk]
  refine and_congr_right fun _ => and_congr_right fun hleads => ?_
  have hle := (hleads l rfl).length_le
  rw [List.length_dropLast, (h.sound.of_stored? hk).1.length_path, hls.length_path] at hle
  have hnext : k.depth ≤ l.depth + 1 := by omega
  simp [hnext]

theorem pagesAround_anew {rows : List Link} (viewer : Viewer)
    (hl : m.table.link? l.nid = .ok (some l))
    (hselect : m.table.select (bookQuery l.bid (some l) (some (l.depth + 1))) = .ok rows) :
    ∃ m', pagesAround l.nid viewer { m with cache := .empty } =
      .ok (forViewer m.content viewer
        (BookForest.build (activePages (some l)).contains 1 rows)).links m' := by
  have hlook : look (·.link? l.nid) { m with cache := .empty } =
      .ok (some l) { m with cache := .empty } := look_of_ok hl
  obtain ⟨c, events, hkept⟩ := keptForest_anew hselect
  exact ⟨_, (bind_of_ok hlook).trans ((bind_of_ok hkept).trans rfl)⟩

/-- In a consistent table, whatever the content and whoever the viewer is, the pages told around a
page are those of the forest that is told of its book with that page in focus and no limit, each
before those below it; for the limit that is set for them leaves out no row. -/
theorem pagesAround_eq_links (m : Manager) (h : m.table.Consistent) (nid : PageId) (l : Link)
    (hl : m.table.link? nid = .ok (some l)) (viewer : Viewer) :
    (∃ rows, m.table.select (bookQuery l.bid (some l) none) = .ok rows ∧
      m.table.select (bookQuery l.bid (some l) (some (l.depth + 1))) = .ok rows) ∧
    ∃ f m₁ m₂, bookForest l.bid (some nid) none viewer { m with cache := .empty } = .ok f m₁ ∧
      pagesAround nid viewer { m with cache := .empty } = .ok f.links m₂ := by
  have hw := h.whole
  have hstored := (Table.link?_ok_iff hw.sound).1 hl
  obtain ⟨_, rfl⟩ := hw.sound.of_stored? hstored
  have hunlimited : m.table.select (bookQuery l.bid (some l) none) = .ok _ :=
    Table.select_eq hw.sound _
  have hlimited : m.table.select (bookQuery l.bid (some l) (some (l.depth + 1))) = .ok _ :=
    Table.select_eq hw.sound _
  rw [chosen_around hw hstored] at hlimited
  have hfocus : ∀ k ∈ some l, m.table.link? k.nid = .ok (some k) := by
    rintro _ ⟨⟩
    exact hl
  obtain ⟨m₁, hbook⟩ := bookForest_anew viewer hfocus hunlimited
  obtain ⟨m₂, haround⟩ := pagesAround_anew viewer hl hlimited
  exact ⟨⟨_, hunlimited, hlimited⟩, _, m₁, m₂, hbook, haround⟩

/-- A page at the ninth level. -/
def ninthPage : Link := .along [1, 2, 3, 4, 5, 6, 7, 8, 9] false 0

/-- The book of that page, with another one beside it, and with a page beside the way to them that
has a page below it. -/
def ninthLevel : Manager where
  table := [.ofLink (.along [1] true 0), .ofLink (.along [1, 2] true 0),
    .ofLink (.along [1, 2, 3] true 0), .ofLink (.along [1, 2, 3, 4] true 0),
    .ofLink (.along [1, 2, 3, 4, 5] true 0), .ofLink (.along [1, 2, 3, 4, 5, 6] true 0),
    .ofLink (.along [1, 2, 3, 4, 5, 6, 7] true 0),
    .ofLink (.along [1, 2, 3, 4, 5, 6, 7, 8] true 0), .ofLink ninthPage,
    .ofLink (.along [1, 2, 3, 4, 5, 6, 7, 8, 10] false (-1)),
    .ofLink (.along [1, 11] true (-2)), .ofLink (.along [1, 11, 12] false 0)].foldl Table.put .empty
  content := ⟨(List.range 13).map fun n => (Int64.ofNat n, ⟨"Page", true⟩)⟩

/-- The pages of that book, each in its place, as a viewer is told of them around the page at the
ninth level. -/
theorem bookForest_ninthLevel {f : BookForest} {m' : Manager} {d : Option Nat} {viewer : Viewer}
    (hrun : bookForest 1 (some 9) d viewer { ninthLevel with cache := .empty } = .ok f m') :
    (ninthLevel.table.select (bookQuery 1 (some ninthPage) d)).map (fun rows =>
      forViewer ninthLevel.content viewer
        (BookForest.build (activePages (some ninthPage)).contains 1 rows)) = .ok f := by
  have hfocus : ∀ k ∈ some ninthPage, ninthLevel.table.link? k.nid = .ok (some k) := by
    rintro _ ⟨⟩
    decide +kernel
  have hconsistent : ninthLevel.table.Consistent := by decide +kernel
  have hselect : ninthLevel.table.select (bookQuery 1 (some ninthPage) d) = .ok _ :=
    Table.select_eq hconsistent.whole.sound _
  obtain ⟨s, hanew⟩ := bookForest_anew viewer hfocus hselect
  have hsame := hanew.symm.trans hrun
  injection hsame with hforest
  rw [hselect, Except.map, hforest]

/-- Around that page all pages lie but the one that is not on the way to it, and all of them are told
but the one that is hidden. -/
theorem pagesAround_eq_links_ninthLevel :
    (ninthLevel.table.Consistent ∧ ninthLevel.table.link? 9 = .ok (some ninthPage)) ∧
    (∃ rows, ninthLevel.table.select (bookQuery 1 (some ninthPage) (some 10)) = .ok rows ∧
      rows.map Link.nid = [1, 2, 3, 4, 5, 6, 7, 8, 9, 10, 11]) ∧
    ∃ f m₁ m₂, bookForest 1 (some 9) none (.allBut [11]) { ninthLevel with cache := .empty } =
        .ok f m₁ ∧
      pagesAround 9 (.allBut [11]) { ninthLevel with cache := .empty } = .ok f.links m₂ ∧
      f.links.map Link.nid = [1, 2, 3, 4, 5, 6, 7, 8, 10, 9] := by
  have hconsistent : ninthLevel.table.Consistent := by decide +kernel
  have hlink : ninthLevel.table.link? 9 = .ok (some ninthPage) := by decide +kernel
  obtain ⟨⟨rows, hunlimited, hlimited⟩, f, m₁, m₂, hbook, haround⟩ :=
    pagesAround_eq_links ninthLevel hconsistent 9 ninthPage hlink (.allBut [11])
  have hids : (ninthLevel.table.select (bookQuery ninthPage.bid (some ninthPage) none)).map
      (·.map Link.nid) = .ok [1, 2, 3, 4, 5, 6, 7, 8, 9, 10, 11] := by cbv
  rw [hunlimited] at hids
  have htold : ((ninthLevel.table.select (bookQuery 1 (some ninthPage) none)).map fun rows =>
      forViewer ninthLevel.content (.allBut [11])
        (BookForest.build (activePages (some ninthPage)).contains 1 rows)).map
      (·.links.map Link.nid) = .ok [1, 2, 3, 4, 5, 6, 7, 8, 10, 9] := by cbv
  rw [bookForest_ninthLevel hbook] at htold
  exact ⟨⟨hconsistent, hlink⟩, ⟨rows, hlimited, Except.ok.inj hids⟩,
    f, m₁, m₂, hbook, haround, Except.ok.inj htold⟩

end Outline.Manager
