import Outline.Proofs.Store.Consistent

/-!
Links written to a table and read back.

A valid link is read as it was written, whether its row is new or takes the place of another, and
whatever the table holds besides. Writing what has been read changes nothing.
-/
namespace Outline
set_option autoImplicit false

namespace Table

variable {t t' : Table} {l : Link} {nid : PageId}

/-- A table that has come of another by storing a link: the link is read back, by itself and among
others, and the rows of all other pages are as they were. -/
structure Stores (t : Table) (l : Link) (t' : Table) : Prop where
  link : t'.link? l.nid = .ok (some l)
  links : t'.links [l.nid] = .ok [l]
  others : ∀ nid, nid ≠ l.nid → t'.row? nid = t.row? nid

/-- A page whose row holds a valid link is read as that link. -/
theorem link?_of_row? (h : l.Valid) (hr : t.row? l.nid = some (.ofLink l)) :
    t.link? l.nid = .ok (some l) := by
  simp only [link?, hr, Row.toLink_ofLink h]
  rfl

theorem links_of_row? (h : l.Valid) (hr : t.row? l.nid = some (.ofLink l)) :
    t.links [l.nid] = .ok [l] := by
  have hrows : t.rows.filter (fun r => [l.nid].contains r.nid) = [.ofLink l] := by
    have hone : (fun r : Row => [l.nid].contains r.nid) = (·.nid == l.nid) := by
      funext r
      rw [Bool.eq_iff_iff]
      simp
    rw [hone, filter_nid, hr]
    rfl
  rw [links, hrows, Row.toLinks, Row.toLink_ofLink h]
  rfl

theorem stores_put (t : Table) (h : l.Valid) : t.Stores l (t.put (.ofLink l)) := by
  have hr : (t.put (.ofLink l)).row? l.nid = some (.ofLink l) := by
    rw [row?_put]
    exact if_pos rfl
  refine ⟨link?_of_row? h hr, links_of_row? h hr, fun nid hne => ?_⟩
  rw [row?_put]
  exact if_neg hne

/-- A page that is read as a link has the row of the link. -/
theorem row?_of_link? (h : t.link? nid = .ok (some l)) :
    l.nid = nid ∧ l.Valid ∧ t.row? nid = some (.ofLink l) := by
  unfold link? at h
  cases hr : t.row? nid with
  | none =>
    rw [hr] at h
    cases h
  | some r =>
    rw [hr] at h
    simp only at h
    cases hread : r.toLink with
    | error fault =>
      rw [hread] at h
      cases h
    | ok k =>
      rw [hread] at h
      cases h
      obtain ⟨rfl, hl⟩ := Row.of_toLink hread
      exact ⟨(row?_eq_some_iff.1 hr).2, hl, rfl⟩

/-- A valid link can be inserted where its page has no row, and it can take the place of the row
that its page has. Either way it is read back, and no other row has changed. A link that has been
read can be written again, and the table stays as it is. -/
theorem write_reads_back (t : Table) (l : Link) :
    (l.Valid → t.row? l.nid = none → ∃ t', t.insert l = .ok t' ∧ t.Stores l t') ∧
      (l.Valid → (t.row? l.nid).isSome → ∃ t', t.update l = .ok t' ∧ t.Stores l t') ∧
      ∀ nid, t.link? nid = .ok (some l) → t.update l = .ok t := by
  refine ⟨fun hl hnew => ?_, fun hl hold => ?_, fun nid hread => ?_⟩
  · exact ⟨_, insert_eq hl hnew, stores_put t hl⟩
  · exact ⟨_, update_eq hl hold, stores_put t hl⟩
  · obtain ⟨rfl, hl, hr⟩ := row?_of_link? hread
    rw [update_eq hl (by rw [hr]; rfl), put_row hr]

/-- A book of two pages, and a row that holds no link, since its flag is neither one nor zero. -/
def oneDamaged : Table :=
  [.ofLink (.along [1] true (-5)), .ofLink (.along [1, 4] false 7),
    { Row.ofLink (.along [6] false 0) with hasChildren := .int 7 }].foldl put .empty

/-- Beside a damaged row, a page of nine levels is inserted and read back. The damaged row gives way
to a valid link, and a row that was read stays as it is. -/
theorem write_reads_back_oneDamaged :
    (∃ t', oneDamaged.insert (.along [1, 4, 9, 10, 11, 12, 13, 14, 2] true 3) = .ok t' ∧
      oneDamaged.Stores (.along [1, 4, 9, 10, 11, 12, 13, 14, 2] true 3) t') ∧
      (∃ t', oneDamaged.update (.along [1, 6] true (-1)) = .ok t' ∧
        oneDamaged.Stores (.along [1, 6] true (-1)) t') ∧
      oneDamaged.link? 4 = .ok (some (.along [1, 4] false 7)) ∧
      oneDamaged.update (.along [1, 4] false 7) = .ok oneDamaged := by
  have hread : oneDamaged.link? 4 = .ok (some (.along [1, 4] false 7)) := by decide
  refine ⟨?_, ?_, hread, ?_⟩
  · exact (write_reads_back oneDamaged _).1 (by decide) (by decide)
  · exact (write_reads_back oneDamaged _).2.1 (by decide) (by decide)
  · exact (write_reads_back oneDamaged _).2.2 4 hread

end Table
end Outline
