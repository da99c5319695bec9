import Outline.Proofs.Cache.Keys
import Outline.Proofs.Cache.ReadBack
import Outline.Proofs.Manager.Reads
import Outline.Proofs.Store.Consistent

/-!
Requests for the forest of a book that share a key.

The key of a request has a zero where no page is in focus, and where no limit is set. No page has the
id zero, but a limit can be zero. Two requests that share their key are therefore the same request,
unless one of them asks for no levels at all and the other for all of them.
-/
namespace Outline.Manager
set_option autoImplicit false

/-- A request for the forest of a book, whoever views it. -/
structure ForestRequest where
  bid : PageId
  focus : Option PageId
  depthLimit : Option Nat
  deriving DecidableEq

namespace ForestRequest

/-- The key that the answer is kept under. -/
def key (locale : String) (r : ForestRequest) : String :=
  Cache.bookKey locale r.bid (r.focus.getD 0) r.depthLimit

/-- The answer for a viewer. -/
def read (viewer : Viewer) (r : ForestRequest) : Managed BookForest :=
  bookForest r.bid r.focus r.depthLimit viewer

/-- The answer for a viewer when nothing is in the cache. -/
def anew (m : Manager) (viewer : Viewer) (r : ForestRequest) : Except OutlineFault BookForest :=
  match r.read viewer { m with cache := .empty } with
  | .ok f _ => .ok f
  | .error fault _ => .error fault

variable {locale : String} {r r' : ForestRequest}

/-- A key determines its request but for the difference between no limit and a limit of zero. -/
theorem parts_of_key_eq (hr : r.focus ≠ some 0) (hr' : r'.focus ≠ some 0)
    (h : r.key locale = r'.key locale) :
    r.bid = r'.bid ∧ r.focus = r'.focus ∧ r.depthLimit.getD 0 = r'.depthLimit.getD 0 := by
  obtain ⟨hbid, hfocus, hlimit⟩ := Cache.bookKey_injective h
  refine ⟨hbid, ?_, hlimit⟩
  cases hf : r.focus <;> cases hf' : r'.focus <;> simp_all

end ForestRequest

section Again

variable {m m' : Manager} {t : Table} {q : Query} {links : List Link} {bid : PageId}
  {focus : Option Link} {d d' : Option Nat} {f : BookForest}

theorem valid_of_toLinks : ∀ {rs : List Row} {links : List Link},
    Row.toLinks rs = .ok links → ∀ l ∈ links, l.Valid
  | [], links, h, l, hl => by
    cases h
    cases hl
  | r :: rs, links, h, l, hl => by
    obtain ⟨k, hk, hrest⟩ := Row.ok_of_bind h
    obtain ⟨ks, hks, hlinks⟩ := Row.ok_of_bind hrest
    cases hlinks
    rcases List.mem_cons.1 hl with rfl | hl
    · exact (Row.of_toLink hk).2
    · exact valid_of_toLinks hks l hl

/-- Whatever rows there are, a forest that could be made of them is read back from its bytes. -/
theorem decode?_encode_select (h : t.select q = .ok links) (active : PageId → Bool)
    (minDepth : Nat) :
    BookForest.decode? (BookForest.build active minDepth links).encode =
      some (BookForest.build active minDepth links) := by
  refine BookForest.decode?_encode_build (fun l hl => ?_) active minDepth
  have hvalid := (Link.valid_iff.1 (valid_of_toLinks h l hl)).2.1
  exact ⟨Nat.pos_of_ne_zero hvalid.1, hvalid.2⟩

theorem found_of_keptForest (h : keptForest bid focus d m = .ok f m') :
    ∃ c events, m' = m.keep c events ∧ (c.forestAt (m.forestKey bid focus d)).1 = some f := by
  cases hfound : (m.cache.forestAt (m.forestKey bid focus d)).1 with
  | some g =>
    obtain ⟨events, hrun⟩ := keptForest_of_found hfound
    rw [hrun] at h
    cases h
    exact ⟨m.cache, events, rfl, hfound⟩
  | none =>
    obtain ⟨events, hrun⟩ := keptForest_of_missing hfound
    rw [hrun] at h
    cases hselect : m.table.select (bookQuery bid focus d) with
    | error fault =>
      rw [hselect] at h
      cases h
    | ok rows =>
      rw [hselect] at h
      cases h
      refine ⟨_, events, rfl, ?_⟩
      rw [Cache.forestAt_putForest, decode?_encode_select hselect _ 1]

theorem keptForest_again (hd : d.getD 0 = d'.getD 0) (h : keptForest bid focus d m = .ok f m') :
    ∃ c events m'', m' = m.keep c events ∧ keptForest bid focus d' m' = .ok f m'' := by
  obtain ⟨c, events, rfl, hfound⟩ := found_of_keptForest h
  unfold forestKey Cache.bookKey at hfound
  rw [hd] at hfound
  obtain ⟨more, hrun⟩ := keptForest_of_found (m := m.keep c events) hfound
  exact ⟨c, events, _, rfl, hrun⟩

theorem eq_of_look {α : Type} {g : Table → Except StoreFault α} {a : α} (h : look g m = .ok a m') :
    m' = m ∧ g m.table = .ok a := by
  unfold look at h
  cases hg : g m.table <;> rw [hg] at h <;> cases h
  exact ⟨rfl, rfl⟩

/-- What has been told of a book is told again, also for a limit that the key does not tell apart. -/
theorem bookForest_again {focus : Option PageId} {viewer : Viewer} (hd : d.getD 0 = d'.getD 0)
    (h : bookForest bid focus d viewer m = .ok f m') :
    ∃ m'', bookForest bid focus d' viewer m' = .ok f m'' := by
  have hviewed : ∀ focus : Option Link,
      (keptForest bid focus d >>= fun g => pure (forViewer m.content viewer g)) m = .ok f m' →
      m'.table = m.table ∧ ∃ m'', (keptForest bid focus d' >>= fun g =>
        pure (forViewer m'.content viewer g)) m' = .ok f m'' := by
    intro focus h
    obtain ⟨g, k, hkept, hg⟩ := ok_of_bind_ok h
    obtain ⟨c, events, k', rfl, hagain⟩ := keptForest_again hd hkept
    cases hg
    exact ⟨rfl, k', (bind_of_ok hagain).trans rfl⟩
  unfold bookForest at h ⊢
  obtain ⟨_, _, hget, h⟩ := ok_of_bind_ok h
  cases hget
  cases focus with
  | none => exact (hviewed none h).2
  | some nid =>
    obtain ⟨found, k, hlook, hrest⟩ := ok_of_bind_ok h
    obtain ⟨rfl, hlink⟩ := eq_of_look hlook
    cases found with
    | none =>
      cases hrest
      exact ⟨_, (bind_of_ok hlook).trans rfl⟩
    | some l =>
      obtain ⟨htable, m'', hrun⟩ := hviewed (some l) hrest
      have hlook' : look (·.link? nid) m' = .ok (some l) m' := look_of_ok (by rw [htable, hlink])
      exact ⟨m'', (bind_of_ok hlook').trans hrun⟩

theorem keptForest_anew {rows : List Link}
    (hselect : m.table.select (bookQuery bid focus d) = .ok rows) :
    ∃ c events, keptForest bid focus d { m with cache := .empty } =
      .ok (BookForest.build (activePages focus).contains 1 rows) (m.keep c events) := by
  have hmissing : ((Manager.cache { m with cache := .empty }).forestAt
      (forestKey { m with cache := .empty } bid focus d)).1 = none := rfl
  obtain ⟨events, hkept⟩ := keptForest_of_missing hmissing
  rw [hselect] at hkept
  exact ⟨_, events, hkept⟩

/-- When nothing is in the cache, the forest of a book is made of the rows. -/
theorem bookForest_anew {rows : List Link} (viewer : Viewer)
    (hfocus : ∀ l ∈ focus, m.table.link? l.nid = .ok (some l))
    (hselect : m.table.select (bookQuery bid focus d) = .ok rows) :
    ∃ m', bookForest bid (focus.map Link.nid) d viewer { m with cache := .empty } =
      .ok (forViewer m.content viewer
        (BookForest.build (activePages focus).contains 1 rows)) m' := by
  obtain ⟨c, events, hkept⟩ := keptForest_anew hselect
  cases focus with
  | none => exact ⟨_, (bind_of_ok hkept).trans rfl⟩
  | some l =>
    have hlook : look (·.link? l.nid) { m with cache := .empty } =
        .ok (some l) { m with cache := .empty } := look_of_ok (hfocus l rfl)
    exact ⟨_, (bind_of_ok hlook).trans ((bind_of_ok hkept).trans rfl)⟩

theorem bookForest_unfocused {rows : List Link} (viewer : Viewer)
    (hselect : m.table.select (bookQuery bid none d) = .ok rows) :
    ∃ m', bookForest bid none d viewer { m with cache := .empty } =
      .ok (forViewer m.content viewer
        (BookForest.build (activePages none).contains 1 rows)) m' := by
  have hfocus : ∀ l ∈ (none : Option Link), m.table.link? l.nid = .ok (some l) := nofun
  exact bookForest_anew viewer hfocus hselect

end Again

namespace ForestRequest

variable {m : Manager} {r r' : ForestRequest}

/-- What was told of a request is told of every other one that shares its key, whatever its limit. -/
theorem read_of_key_eq (hr : r.focus ≠ some 0) (hr' : r'.focus ≠ some 0) {locale : String}
    (h : r.key locale = r'.key locale) {viewer : Viewer} {f : BookForest} {m' : Manager}
    (hrun : r.read viewer m = .ok f m') : ∃ m'', r'.read viewer m' = .ok f m'' := by
  obtain ⟨hbid, hfocus, hlimit⟩ := parts_of_key_eq hr hr' h
  unfold read at hrun ⊢
  rw [← hbid, ← hfocus]
  exact bookForest_again hlimit hrun

/-- Requests that share their key have the same answer when nothing is in the cache, unless one of
them has no limit and the other one a limit of zero; so one of them can be told what was told of the
other. -/
theorem anew_eq_of_key_eq (hr : r.focus ≠ some 0) (hr' : r'.focus ≠ some 0)
    (hlimit : r.depthLimit = some 0 ↔ r'.depthLimit = some 0)
    (h : r.key m.settings.locale = r'.key m.settings.locale) (viewer : Viewer) :
    r.anew m viewer = r'.anew m viewer ∧
    ∀ f m', r.read viewer { m with cache := .empty } = .ok f m' →
      r'.anew m viewer = .ok f ∧ ∃ m'', r'.read viewer m' = .ok f m'' := by
  have hsame : r = r' := by
    obtain ⟨hbid, hfocus, hdepth⟩ := parts_of_key_eq hr hr' h
    obtain ⟨bid, focus, limit⟩ := r
    obtain ⟨bid', focus', limit'⟩ := r'
    have hd : limit = limit' := by cases limit <;> cases limit' <;> simp_all
    rw [show bid = bid' from hbid, show focus = focus' from hfocus, hd]
  refine ⟨by rw [hsame], fun f m' hrun => ⟨?_, read_of_key_eq hr hr' h hrun⟩⟩
  rw [← hsame, anew, hrun]

theorem anew_of_select {bid : PageId} {focus : Option Link} {d : Option Nat} {rows : List Link}
    (viewer : Viewer) (hfocus : ∀ l ∈ focus, m.table.link? l.nid = .ok (some l))
    (hselect : m.table.select (bookQuery bid focus d) = .ok rows) :
    (⟨bid, focus.map Link.nid, d⟩ : ForestRequest).anew m viewer =
      .ok (forViewer m.content viewer
        (BookForest.build (activePages focus).contains 1 rows)) := by
  obtain ⟨m', hrun⟩ := bookForest_anew viewer hfocus hselect
  rw [anew, read, hrun]

/-- A book of two pages that everyone may see. -/
def twoPages : Manager where
  table := (Table.empty.put (.ofLink (.along [1] true 0))).put (.ofLink (.along [1, 2] false 0))
  content := ⟨[(1, ⟨"One", true⟩), (2, ⟨"Two", true⟩)]⟩

/-- The pages around the second one, told twice. -/
theorem anew_eq_of_key_eq_twoPages :
    ((⟨1, some 2, some 9⟩ : ForestRequest).focus ≠ some 0 ∧
      ((⟨1, some 2, some 9⟩ : ForestRequest).depthLimit = some 0 ↔ some 9 = some 0)) ∧
    ∃ f m' m'', f.isEmpty = false ∧
      (⟨1, some 2, some 9⟩ : ForestRequest).read .everyone { twoPages with cache := .empty } =
        .ok f m' ∧
      (⟨1, some 2, some 9⟩ : ForestRequest).read .everyone m' = .ok f m'' := by
  have hfocus : (⟨1, some 2, some 9⟩ : ForestRequest).focus ≠ some 0 := by decide
  have htold := (anew_eq_of_key_eq (m := twoPages) hfocus hfocus Iff.rfl rfl .everyone).2
  have hlink : ∀ l ∈ some (Link.along [1, 2] false 0),
      twoPages.table.link? l.nid = .ok (some l) := by
    rintro l ⟨⟩
    cbv
  have hselect : twoPages.table.select (bookQuery 1 (some (.along [1, 2] false 0)) (some 9)) =
      .ok [.along [1] true 0, .along [1, 2] false 0] := by cbv
  obtain ⟨m', hread⟩ := bookForest_anew .everyone hlink hselect
  obtain ⟨_, m'', hagain⟩ := htold _ m' hread
  exact ⟨⟨hfocus, Iff.rfl⟩, _, m', m'', by cbv, hread, hagain⟩

/-- A limit of zero asks for no levels, but has the key of no limit, which asks for all of them. -/
theorem anew_ne_of_limit_zero :
    ¬ ∀ (m : Manager) (r r' : ForestRequest) (viewer : Viewer),
      (∀ nid ∈ r.focus, ∃ l, m.table.link? nid = .ok (some l)) →
      (∀ nid ∈ r'.focus, ∃ l, m.table.link? nid = .ok (some l)) →
      r.key m.settings.locale = r'.key m.settings.locale →
      r.anew m viewer = r'.anew m viewer := by
  intro h
  have hplain : ∀ nid ∈ (none : Option PageId), ∃ l, twoPages.table.link? nid = .ok (some l) :=
    fun nid hnid => absurd hnid (Option.not_mem_none nid)
  have hsame := h twoPages ⟨1, none, none⟩ ⟨1, none, some 0⟩ .everyone hplain hplain rfl
  have hall : twoPages.table.select (bookQuery 1 none none) =
      .ok [.along [1] true 0, .along [1, 2] false 0] := by cbv
  have hnone : twoPages.table.select (bookQuery 1 none (some 0)) = .ok [] := by cbv
  have hfocus : ∀ l ∈ (none : Option Link), twoPages.table.link? l.nid = .ok (some l) :=
    fun l hl => absurd hl (Option.not_mem_none l)
  have heq := Except.ok.inj
    (((anew_of_select .everyone hfocus hall).symm.trans hsame).trans
      (anew_of_select .everyone hfocus hnone))
  have hfull : (forViewer twoPages.content .everyone (BookForest.build
      (activePages none).contains 1 [.along [1] true 0, .along [1, 2] false 0])).isEmpty = false := by
    cbv
  have hempty : (forViewer twoPages.content .everyone
      (BookForest.build (activePages none).contains 1 [])).isEmpty = true := by cbv
  rw [heq, hempty] at hfull
  cases hfull

end ForestRequest
end Outline.Manager
