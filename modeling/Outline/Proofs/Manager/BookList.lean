import Outline.Proofs.Arrange.Rooted
import Outline.Proofs.Forest.Visible
import Outline.Proofs.Manager.Run

/-!
The books that a viewer is told of.

They are found by the ids that rows have for their books. A page that is removed may leave its id
behind in this way, and when it is then stored below another page, it is still taken for a book.
Where this does not happen, the books that are told are the roots that the viewer is shown, as long
as the engine takes the ids of all books in one statement.
-/
namespace Outline.Manager
set_option autoImplicit false

section Told

variable {content : Content} {viewer : Viewer} {stored : List Link} {bids : List PageId}
  {bid : PageId} {book : ListedBook}

/-- The entry for a book, if its page is stored and shown. -/
def listed? (content : Content) (viewer : Viewer) (stored : List Link) (bid : PageId) :
    Option ListedBook :=
  (stored.find? (·.nid == bid)).bind fun link =>
    (content.titleFor? viewer bid).bind fun title => some ⟨bid, title, link⟩

theorem visibleBooks_eq (content : Content) (viewer : Viewer) (stored : List Link)
    (bids : List PageId) :
    visibleBooks content viewer stored bids =
      (bids.filterMap (listed? content viewer stored)).mergeSort fun a b => a.key.le b.key :=
  rfl

theorem listed?_eq_some_iff :
    listed? content viewer stored bid = some book ↔
      book.bid = bid ∧ stored.find? (·.nid == bid) = some book.link ∧
        content.titleFor? viewer bid = some book.title := by
  simp only [listed?, Option.bind_eq_some_iff, Option.some.injEq]
  constructor
  · rintro ⟨link, hlink, title, htitle, rfl⟩
    exact ⟨rfl, hlink, htitle⟩
  · rintro ⟨rfl, hlink, htitle⟩
    exact ⟨book.link, hlink, book.title, htitle, rfl⟩

theorem mem_visibleBooks :
    book ∈ visibleBooks content viewer stored bids ↔
      book.bid ∈ bids ∧ stored.find? (·.nid == book.bid) = some book.link ∧
        content.titleFor? viewer book.bid = some book.title := by
  rw [visibleBooks_eq, List.mem_mergeSort, List.mem_filterMap]
  constructor
  · rintro ⟨bid, hbid, hlisted⟩
    obtain ⟨rfl, hfound, htitle⟩ := listed?_eq_some_iff.1 hlisted
    exact ⟨hbid, hfound, htitle⟩
  · rintro ⟨hbid, hfound, htitle⟩
    exact ⟨book.bid, hbid, listed?_eq_some_iff.2 ⟨rfl, hfound, htitle⟩⟩

theorem bids_listed (bids : List PageId) :
    ((bids.filterMap (listed? content viewer stored)).map ListedBook.bid).Sublist bids := by
  induction bids with
  | nil => exact .slnil
  | cons bid bids ih =>
    cases hlisted : listed? content viewer stored bid with
    | none =>
      rw [List.filterMap_cons_none hlisted]
      exact ih.cons _
    | some book =>
      rw [List.filterMap_cons_some hlisted, List.map_cons, (listed?_eq_some_iff.1 hlisted).1]
      exact ih.cons_cons _

theorem pairwise_visibleBooks (h : bids.Nodup) :
    (visibleBooks content viewer stored bids).Pairwise fun a b => a.key.Before b.key :=
  SiblingKey.pairwise_mergeSort ListedBook.key (h.sublist (bids_listed bids))

/-- Over sound rows the books are told whose ids are those of stored pages, and of books to which
stored pages belong, unless these are more than the engine takes in one statement. -/
theorem allBooks_eq {m : Manager} (h : m.table.Sound) (viewer : Viewer) {limit : Option Nat}
    (hlimit : ∀ most ∈ limit, m.table.usedBooks.length ≤ most) :
    ∃ books, allBooks viewer limit m = .ok books m ∧
      (∀ book : ListedBook, book ∈ books ↔
        (∃ k, m.table.stored? k.nid = some k ∧ k.bid = book.bid) ∧
          m.table.stored? book.bid = some book.link ∧
          m.content.titleFor? viewer book.bid = some book.title) ∧
      books.Pairwise fun a b => a.key.Before b.key := by
  obtain ⟨stored, hstored, hfound⟩ := Table.links_eq h m.table.usedBooks
  have hlinks : links m.table.usedBooks limit m = .ok stored m :=
    look_of_ok ((Table.links_of_le hlimit).trans hstored)
  have hrun : allBooks viewer limit m =
      .ok (visibleBooks m.content viewer stored m.table.usedBooks) m :=
    (bind_of_ok (look_of_ok (Table.bookIds_eq h))).trans ((bind_of_ok hlinks).trans rfl)
  refine ⟨_, hrun, fun book => ?_, pairwise_visibleBooks (Table.nodup_usedBooks _)⟩
  rw [mem_visibleBooks, Table.mem_usedBooks h]
  refine and_congr_right fun hused => ?_
  rw [hfound _ ((Table.mem_usedBooks h).2 hused)]

theorem allBooks_of_lt {m : Manager} (h : m.table.Sound) (viewer : Viewer) {most : Nat}
    (hlimit : most < m.table.usedBooks.length) :
    allBooks viewer (some most) m =
      .error (.storeUnavailable (.engine .tooManyVariables)) m := by
  have hlinks : links m.table.usedBooks (some most) m =
      .error (.storeUnavailable (.engine .tooManyVariables)) m :=
    look_of_error (f := (·.links m.table.usedBooks (some most))) (Table.links_of_lt hlimit)
  exact (bind_of_ok (look_of_ok (Table.bookIds_eq h))).trans (bind_of_error hlinks)

end Told

/-- A row of the second table for an id that the first one has no row for is at the top, or the id
is that of no book of the first table. -/
def PlacesNoBook (t t' : Table) : Prop :=
  ∀ r ∈ t'.rows, t.row? r.nid = none → r.pid = .int 0 ∨ ∀ c ∈ t.rows, c.bid ≠ .int r.nid

instance (t t' : Table) : Decidable (PlacesNoBook t t') :=
  inferInstanceAs (Decidable (∀ r ∈ t'.rows, _))

/-- An action that stores no page below another one under an id that rows have for their book. -/
def StoresNoBook (m : Manager) (a : Action) : Prop := PlacesNoBook m.table (m.act a).table

instance (m : Manager) (a : Action) : Decidable (StoresNoBook m a) :=
  inferInstanceAs (Decidable (PlacesNoBook _ _))

/-- A step keeps ids of books to roots when it stores no page below another one under such an id. -/
theorem Step.rooted {t t' : Table} {c : Mutation} {touched : List PageId}
    (hstep : Step t c touched t') (h : t.Sound) (hroot : t.Rooted) (hnew : PlacesNoBook t t') :
    t'.Rooted := by
  have h' := hstep.sound h
  cases hstep with
  | nothing => exact hroot
  | started positive missing =>
    exact hroot.put_new (Link.sound_root positive false _) missing (.inl rfl)
  | @placed parent nid weight positive missing stored fits =>
    have hps := (h.of_stored? stored).1
    have hs := sound_placedChild h positive missing stored fits weight
    have hchild := hps.along_child nid false weight
    generalize Link.along (parent.path ++ [nid]) false weight = new at hs hchild hnew h' ⊢
    have hmiss : t.stored? new.nid = none := by rw [hchild, missing]
    have hfree : ∀ k, t.stored? k.nid = some k → k.bid ≠ new.nid := by
      intro k hk hkb
      have hput : ((t.put (.ofLink new)).setHasChildren parent.nid true).stored? new.nid =
          some (new.flagged parent.nid true) := by
        rw [Table.stored?_setHasChildren (h.put hs), Table.stored?_put hs, if_pos rfl]
        rfl
      have hrow := h'.mem_rows_iff.2 ⟨_, h'.stored?_nid hput, rfl⟩
      have hnid := new.nid_flagged parent.nid true
      have hnone : t.row? (new.flagged parent.nid true).nid = none := by
        rw [hnid]
        exact (Table.stored?_eq_none_iff h).1 hmiss
      rcases hnew _ hrow hnone with htop | hfree
      · have hpid : new.pid = parent.nid := by rw [hchild]
        have hzero : (new.flagged parent.nid true).pid = 0 := Cell.int.inj htop
        rw [Link.pid_flagged, hpid] at hzero
        exact hps.nid_ne_zero hzero
      · refine hfree (.ofLink k) (h.mem_rows_iff.2 ⟨k, hk, rfl⟩) (congrArg Cell.int ?_)
        exact hkb.trans hnid.symm
    have hbook : parent.bid = new.bid := by rw [hchild]
    exact (hroot.put_new hs hmiss (.inr ⟨hfree, parent, stored, hbook⟩)).setHasChildren
      (h.put hs) _ _
  | weighed stored => exact hroot.weigh h stored _
  | moved stored leaves rehung =>
    exact rehung.rooted h (h.of_stored? stored).1 (fun _ => stored) hroot
  | removed asked stored promoted => exact Arrange.removed_rooted h hroot promoted

/-- A manager with sound rows, whose ids of books are kept to roots, outside a transaction. -/
structure Shelved (m : Manager) : Prop where
  ready : m.Ready
  rooted : m.table.Rooted

theorem Shelved.act {m : Manager} (h : m.Shelved) (a : Action) (hnew : StoresNoBook m a) :
    (m.act a).Shelved := by
  obtain ⟨_, _, hstep⟩ := h.ready.step a
  exact ⟨h.ready.act a, hstep.rooted h.ready.sound h.rooted hnew⟩

/-- Where ids of books are kept to roots, the pages told as books are the roots that are shown. -/
theorem Shelved.listed_iff {m : Manager} (hm : m.Shelved) (viewer : Viewer) (book : ListedBook) :
    ((∃ k, m.table.stored? k.nid = some k ∧ k.bid = book.bid) ∧
        m.table.stored? book.bid = some book.link ∧
        m.content.titleFor? viewer book.bid = some book.title) ↔
      (∃ r ∈ m.table.rows, r.toLink = .ok book.link) ∧
        book.link.pid = 0 ∧ book.link.bid = book.bid ∧
        m.content.shows viewer book.bid = true ∧
        (m.content.info? book.bid).map ContentInfo.title = some book.title := by
  have h := hm.ready.sound
  rw [Content.titleFor?_eq_some_iff]
  constructor
  · rintro ⟨⟨k, hk, hkb⟩, hstored, hshown⟩
    obtain ⟨hls, hnid⟩ := h.of_stored? hstored
    have htop := hm.rooted book.link k (h.stored?_nid hstored) hk (hkb.trans hnid.symm)
    refine ⟨⟨_, h.mem_rows_iff.2 ⟨_, h.stored?_nid hstored, rfl⟩, Row.toLink_ofLink hls.valid⟩,
      htop, (hls.bid_of_top htop).trans hnid, hshown⟩
  · rintro ⟨⟨r, hr, hread⟩, htop, hbid, hshown⟩
    obtain ⟨rfl, hvalid⟩ := Row.of_toLink hread
    have hstored := Table.stored?_of_link? hr (Row.link?_ofLink hvalid)
    have hnid := ((h.of_stored? hstored).1.bid_of_top htop).symm.trans hbid
    exact ⟨⟨book.link, hstored, hbid⟩, hnid ▸ hstored, hshown⟩

/-- After any run that stores no page below another one under an id that rows have for their book,
the books that a viewer is told of are the stored roots that the viewer is shown: each has the link
and the title of its root, and they are in strict order. The ids of all books go into one statement,
so where rows have more of them than the engine takes, its refusal is all that is told. -/
theorem run_allBooks (content : Content) (settings : Settings) (as : List Action) (viewer : Viewer)
    (limit : Option Nat) (hrun : Permitted StoresNoBook (blank content settings) as) :
    ((∀ most ∈ limit, ((blank content settings).run as).table.usedBooks.length ≤ most) →
      ∃ books, allBooks viewer limit ((blank content settings).run as) =
          .ok books ((blank content settings).run as) ∧
        (∀ book : ListedBook, book ∈ books ↔
          (∃ r ∈ ((blank content settings).run as).table.rows, r.toLink = .ok book.link) ∧
            book.link.pid = 0 ∧ book.link.bid = book.bid ∧
            ((blank content settings).run as).content.shows viewer book.bid = true ∧
            (((blank content settings).run as).content.info? book.bid).map ContentInfo.title =
              some book.title) ∧
        books.Pairwise fun a b => a.key.Before b.key) ∧
    ∀ most ∈ limit, most < ((blank content settings).run as).table.usedBooks.length →
      allBooks viewer limit ((blank content settings).run as) =
        .error (.storeUnavailable (.engine .tooManyVariables))
          ((blank content settings).run as) := by
  have hm : ((blank content settings).run as).Shelved :=
    run_induction (fun m a h hnew => h.act a hnew) as _
      ⟨ready_blank content settings, Table.rooted_empty⟩ hrun
  generalize (blank content settings).run as = m at hm ⊢
  have h := hm.ready.sound
  refine ⟨fun hlimit => ?_, fun most hmost hlt => ?_⟩
  · obtain ⟨books, htold, hmem, horder⟩ := allBooks_eq h viewer hlimit
    exact ⟨books, htold, fun book => (hmem book).trans (hm.listed_iff viewer book), horder⟩
  · rw [Option.mem_def.1 hmost]
    exact allBooks_of_lt h viewer hlt

/-- Two books, each with a page below its root; the first one is left without its root and the page
between, and both are stored again, the first as a root. -/
def rootAgain : List Action :=
  [.change (.addRoot 1 0), .change (.addChild 2 1 0), .change (.addChild 3 2 0),
    .change (.delete 2), .change (.delete 1), .change (.addRoot 9 0), .change (.addChild 2 9 0),
    .change (.addRoot 1 0)]

/-- What is known of the pages of these books. -/
def namedRoots : Content := ⟨[(1, ⟨"One", true⟩), (2, ⟨"Two", true⟩), (9, ⟨"Nine", true⟩)]⟩

theorem twoBooks_fit {t : Table} (h : t.usedBooks = [1, 9]) :
    ∀ most ∈ some Table.maxVariables, t.usedBooks.length ≤ most := by
  rintro _ ⟨⟩
  rw [h]
  decide

/-- Both roots are told, and nothing else. An engine that took only one id would tell of neither. -/
theorem run_allBooks_rootAgain :
    Permitted StoresNoBook (blank namedRoots {}) rootAgain ∧
    ((blank namedRoots {}).run rootAgain).table.usedBooks = [1, 9] ∧
    (∃ books, allBooks .everyone (some Table.maxVariables) ((blank namedRoots {}).run rootAgain) =
        .ok books ((blank namedRoots {}).run rootAgain) ∧
      ⟨1, "One", .along [1] false 0⟩ ∈ books ∧ ⟨9, "Nine", .along [9] true 0⟩ ∈ books ∧
      ∀ book ∈ books, book.link.pid = 0) ∧
    allBooks .everyone (some 1) ((blank namedRoots {}).run rootAgain) =
      .error (.storeUnavailable (.engine .tooManyVariables))
        ((blank namedRoots {}).run rootAgain) := by
  have hrun : Permitted StoresNoBook (blank namedRoots {}) rootAgain := by decide +kernel
  have hused : ((blank namedRoots {}).run rootAgain).table.usedBooks = [1, 9] := by cbv
  obtain ⟨books, htold, hmem, _⟩ :=
    (run_allBooks namedRoots {} rootAgain .everyone (some Table.maxVariables) hrun).1
      (twoBooks_fit hused)
  have hrows : ((blank namedRoots {}).run rootAgain).table.rows =
      [.ofLink (.along [1] false 0), .ofLink (.along [9, 2] false 0),
        .ofLink (.along [1, 2, 3] false 0), .ofLink (.along [9] true 0)] := by cbv
  refine ⟨hrun, hused, ⟨books, htold, ?_, ?_, fun book hbook => ((hmem book).1 hbook).2.1⟩, ?_⟩
  · refine (hmem _).2 ⟨⟨.ofLink (.along [1] false 0), ?_, by cbv⟩, by decide, by decide, by cbv,
      by cbv⟩
    rw [hrows]
    exact List.mem_cons_self
  · refine (hmem _).2 ⟨⟨.ofLink (.along [9] true 0), ?_, by cbv⟩, by decide, by decide, by cbv,
      by cbv⟩
    rw [hrows]
    decide
  · refine (run_allBooks namedRoots {} rootAgain .everyone (some 1) hrun).2 1 rfl ?_
    rw [hused]
    decide

/-- A book is left without its root, which is then stored below another one. -/
def rootBelow : List Action :=
  [.change (.addRoot 1 0), .change (.addChild 2 1 0), .change (.addChild 3 2 0),
    .change (.delete 2), .change (.delete 1), .change (.addRoot 9 0), .change (.addChild 1 9 0)]

/-- The former root is told as a book, though it lies below another page. -/
theorem run_strayBook :
    ¬ ∀ (content : Content) (as : List Action) (viewer : Viewer) (books : List ListedBook)
      (m : Manager),
      allBooks viewer (some Table.maxVariables) ((blank content {}).run as) = .ok books m →
        ∀ book ∈ books, book.link.pid = 0 := by
  intro h
  have hsound := ((ready_blank namedRoots {}).run rootBelow).sound
  have hused : ((blank namedRoots {}).run rootBelow).table.usedBooks = [1, 9] := by cbv
  obtain ⟨books, htold, hmem, _⟩ := allBooks_eq hsound .everyone (twoBooks_fit hused)
  have hstray : ⟨1, "One", .along [9, 1] false 0⟩ ∈ books := by
    refine (hmem _).2 ⟨⟨.along [1, 2, 3] false 0, by cbv, by decide⟩, by cbv, by cbv⟩
  have htop := h namedRoots rootBelow .everyone books _ htold _ hstray
  exact absurd htop (by decide)

end Outline.Manager
