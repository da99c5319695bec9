import Outline.Proofs.Manager.MoveBack

/-!
Requests for a place, made once and once more.

Whether a request starts a book, places a page or moves one, it leaves the page stored below the
parent and with the weight that it asks for, with the link that it tells. Made again, it finds the
page there: it comes to a move to the parent that the page has, which tells the same link and writes
no row.
-/
namespace Outline.Manager
set_option autoImplicit false

variable {m m' : Manager} {l : Link} {nid pid bid : PageId} {weight : Int32} {r : Request}

/-- What a change that seats a page leaves: the link that is told is stored for the page, with the
parent and the weight that were asked for. -/
structure Seated (t : Table) (nid pid : PageId) (weight : Int32) (l : Link) : Prop where
  stored : t.stored? nid = some l
  parent : l.pid = pid
  weight : l.weight = weight

/-- A change that is made is one whose work succeeds. -/
theorem work_of_settled {α β : Type} {change : Change} {work : TableWork α}
    (books : α → List PageId) (result : α → β) {b : β}
    (hrun : (do
      let a ← told change nid (atomically none work)
      forget (books a)
      return result a : Managed β) m = .ok b m') :
    ∃ a, work m.table = .ok a m'.table ∧ result a = b := by
  obtain ⟨a, s, htold, hnext⟩ := ok_of_bind_ok hrun
  obtain ⟨⟨⟩, s', hforget, hpure⟩ := ok_of_bind_ok hnext
  cases hforget
  cases hpure
  rcases atomically_cases none work m with ⟨_, hrefused⟩ | ⟨made, t, hw, hmade⟩
  · rw [told, hrefused] at htold
    cases htold
  · rw [told, hmade] at htold
    cases htold
    exact ⟨a, hw, rfl⟩

theorem addRoot_seats (h : m.table.Sound) (hrun : addRoot nid weight m = .ok l m') :
    Seated m'.table nid 0 weight l := by
  obtain ⟨_, hwork, rfl⟩ :=
    work_of_settled (fun _ => [nid]) (fun _ => Link.root nid weight) hrun
  rw [Arrange.addRoot_eq h] at hwork
  split at hwork
  · cases hwork
  · next hn =>
    split at hwork
    · cases hwork
    · injection hwork with _ htable
      have hs : (Link.root nid weight).Sound := Link.sound_root (Int64.not_le.1 hn) false weight
      refine ⟨?_, rfl, rfl⟩
      rw [← htable, Table.stored?_put hs]
      exact if_pos rfl

theorem addChild_seats (h : m.table.Sound) (hrun : addChild nid pid weight m = .ok l m') :
    Seated m'.table nid pid weight l := by
  obtain ⟨_, hwork, rfl⟩ :=
    work_of_settled (fun l : Link => [l.bid]) (fun l : Link => l) hrun
  rw [Arrange.addChild_eq h] at hwork
  split at hwork
  · cases hwork
  · next hmiss =>
    cases hp : m.table.stored? pid with
    | none =>
      rw [hp] at hwork
      cases hwork
    | some parent =>
      obtain ⟨hps, rfl⟩ := h.of_stored? hp
      rw [hp] at hwork
      simp only at hwork
      split at hwork
      · cases hwork
      · next hd =>
        split at hwork
        · cases hwork
        · next hn =>
          injection hwork with hlink htable
          have hmiss : m.table.stored? nid = none := by simpa using hmiss
          have hs := sound_placedChild h (Int64.not_le.1 hn) hmiss hp (Nat.not_lt.1 hd) weight
          have hchild := hps.along_child nid false weight
          generalize Link.along (parent.path ++ [nid]) false weight = new at *
          subst hlink
          have hnid : new.nid = nid := by rw [hchild]
          refine ⟨?_, by rw [hchild], by rw [hchild]⟩
          rw [← htable, Table.stored?_setHasChildren (h.put hs), Table.stored?_put hs,
            if_pos hnid.symm, Option.map_some, Link.flagged_of_ne]
          rw [hnid]
          exact (Table.ne_of_stored? hp hmiss).symm

theorem move_seats (h : m.table.Sound) (hrun : move nid pid (some weight) m = .ok l m') :
    Seated m'.table nid pid weight l := by
  obtain ⟨touched, hv, hends, _⟩ := verdict_of_move h hrun
  cases hold : m.table.stored? nid with
  | none =>
    rw [Arrange.verdict, hold] at hv
    cases hv
  | some old =>
    have hstored := hends.stored?_moved h
    have hseat := hends.seat?_eq h nid
    rw [Table.seat?_of_stored? hstored, if_pos rfl, Option.some.injEq, Prod.mk.injEq] at hseat
    exact ⟨hstored, hseat.1, Arrange.weight_of_verdict h hold hv⟩

/-- A request that tells a link was for a book, and seats its page there. -/
theorem update_seats (h : m.table.Sound) (hrun : update r m = .ok (some l) m') :
    ∃ bid, r.bid? = some bid ∧ Seated m'.table r.nid (r.parentIn bid) r.weight l := by
  cases hbid : r.bid? with
  | none =>
    unfold update updateAgainst at hrun
    rw [hbid] at hrun
    cases hrun
  | some bid =>
    refine ⟨bid, rfl, ?_⟩
    rw [update_eq h hbid] at hrun
    obtain ⟨_, s, hchange, hpure⟩ := ok_of_bind_ok hrun
    cases hpure
    split at hchange
    · exact move_seats h hchange
    · split at hchange
      · next htop =>
        rw [htop]
        exact addRoot_seats h hchange
      · exact addChild_seats h hchange

/-- A page that is moved to the seat it has is told with the link it has, and no row is written. -/
theorem Seated.move_again (hs : Seated m.table nid pid weight l) (h : m.Ready) :
    ∃ m', move nid pid (some weight) m = .ok l m' ∧ m'.table = m.table := by
  obtain ⟨_, rfl⟩ := h.sound.of_stored? hs.stored
  have hsame : ({ l with weight := weight } : Link) = l := by rw [← hs.weight]
  have hwork : (Arrange.linkOf l.nid >>= fun l => Arrange.move l pid (some weight)) m.table =
      .ok (l, [l.bid]) m.table := by
    rw [bind_of_ok (Arrange.linkOf_of_stored h.sound hs.stored), ← hs.parent,
      Arrange.move_of_eq h.sound hs.stored, Option.getD_some, hsame,
      Arrange.put_stored h.sound hs.stored]
  obtain ⟨events, hrun⟩ := settled_of_ok .move l.nid (fun a : Link × List PageId => a.2)
    (fun a => a.1) h.outside hwork
  exact ⟨_, hrun, rfl⟩

/-- A request whose page is seated as it asks for tells the page's link and writes no row. -/
theorem Seated.update_again (hs : Seated m.table r.nid (r.parentIn bid) r.weight l)
    (h : m.Ready) (hbid : r.bid? = some bid) :
    ∃ m', update r m = .ok (some l) m' ∧ m'.table = m.table := by
  obtain ⟨m', hmove, htable⟩ := hs.move_again h
  refine ⟨m', ?_, htable⟩
  have hfound : (m.table.stored? r.nid).isSome := by
    rw [hs.stored]
    rfl
  rw [update_eq h.sound hbid, if_pos hfound]
  exact bind_of_ok hmove

/-- After any run, a request that tells a link leaves that link stored for its page. Made again, it
tells the same link and writes no row. -/
theorem run_update_again (content : Content) (settings : Settings) (as : List Action)
    (r : Request) (l : Link) (m' : Manager)
    (hrun : update r ((blank content settings).run as) = .ok (some l) m') :
    link? r.nid m' = .ok (some l) m' ∧
      ∃ m'', update r m' = .ok (some l) m'' ∧ m''.table = m'.table := by
  have h := (ready_blank content settings).run as
  generalize (blank content settings).run as = m at h hrun
  have h' : m'.Ready := by
    have hact := h.act (.change (.update r))
    have hafter : m.act (.change (.update r)) = m' := after_of_ok hrun
    rwa [hafter] at hact
  obtain ⟨bid, hbid, hs⟩ := update_seats h.sound hrun
  refine ⟨?_, hs.update_again h' hbid⟩
  rw [link?, look, Table.link?_eq h'.sound, hs.stored]

/-- The page at the end of the chain that holds it twice is asked for in another book, at the top of
which it has a place then. -/
theorem run_update_again_reusedIds :
    ∃ m' m'', update ⟨1, .existing 2, none, 4⟩ ((blank .empty {}).run reusedIds) =
        .ok (some (.along [2, 1] false 4)) m' ∧
      link? 1 m' = .ok (some (.along [2, 1] false 4)) m' ∧
      update ⟨1, .existing 2, none, 4⟩ m' = .ok (some (.along [2, 1] false 4)) m'' ∧
      m''.table = m'.table := by
  have houtcome : outcome (update ⟨1, .existing 2, none, 4⟩) ((blank .empty {}).run reusedIds) =
      .ok (some (.along [2, 1] false 4)) := by cbv
  have hrun := run_of_outcome houtcome
  obtain ⟨hlink, m'', hagain, htable⟩ := run_update_again .empty {} reusedIds _ _ _ hrun
  exact ⟨_, m'', hrun, hlink, hagain, htable⟩

end Outline.Manager
