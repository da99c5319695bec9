import Outline.Proofs.Arrange.Linked
import Outline.Proofs.Store.Charted

/-!
Moves and removals on charted tables.

A move puts a new start in place of an old one in every path that has it, and a page that is moved
must not be on the path that it comes to lie below. So the routes can be moved along with the paths.
-/
namespace Outline.Arrange
set_option autoImplicit false

variable {t t' t₁ : Table} {old moved : Link} {cs : List Link} {pid gone : PageId}
  {path touched : List PageId}

/-- A moved page has come to lie at the top or below a stored page that it is not above of. -/
theorem Destined.path_split (hd : Destined old pid t moved) (h : t.Sound) :
    ∃ up, moved.path = up ++ [old.nid] ∧ old.nid ∉ up ∧
      (up = [] ∨ ∃ p, t.stored? p.nid = some p ∧ p.path = up) := by
  rcases hd.path with ⟨_, hpath⟩ | ⟨parent, hparent, hfree, hpath⟩
  · exact ⟨[], hpath, List.not_mem_nil, .inl rfl⟩
  · exact ⟨parent.path, hpath, hfree, .inr ⟨parent, h.stored?_nid hparent, rfl⟩⟩

theorem Rehung.charted (hr : Rehung t old pid moved t') (h : t.Sound)
    (hs : t.stored? old.nid = some old) (hc : t.Charted) : t'.Charted := by
  have ho := (h.of_stored? hs).1
  have hd := hr.destined h ho
  obtain ⟨route, hroute⟩ := hc
  obtain ⟨flag, _, hstored⟩ := hr.stored
  obtain ⟨up, hmoved, hfree, hup⟩ := hd.path_split h
  have hold : old.path = old.path.dropLast ++ [old.nid] := ho.valid.path_eq
  have hupper : FollowsRoutes route up := by
    rcases hup with rfl | ⟨p, hp, rfl⟩
    · exact followsRoutes_nil route
    · exact hroute p hp
  -- Every route is moved along in the way the paths are.
  refine ⟨fun id => rerouted old.path moved.path (route id), fun k' hk' => ?_⟩
  rw [hstored, Option.map_eq_some_iff] at hk'
  obtain ⟨k, hk, rfl⟩ := hk'
  have hks := h.stored?_nid hk
  have hpath : (Link.carried old moved flag k).path = rerouted old.path moved.path k.path := by
    rw [hd.path_carried h hs hks, rerouted, ho.length_path]
    simp only [Link.liesWithin_iff (h.of_stored? hk).1 ho]
  rw [hpath, hold, hmoved]
  exact (hroute k hks).reroute (hold ▸ hroute old hs) hupper hfree

theorem Promoted.charted (hp : Promoted t cs touched t') (h : t.Sound)
    (ho : Orphans t path gone cs) (hc : t.Charted) : t'.Charted := by
  induction hp with
  | nil => exact hc
  | cons first _ ih => exact ih first.sound (ho.tail h first) (first.charted h ho.head hc)

theorem removed_charted (h : t.Sound) (hs : t.stored? old.nid = some old) (hc : t.Charted)
    (hp : Promoted (t.erase old.nid) (orphansOf t old) touched t₁) :
    (t₁.setHasChildren old.pid (otherChildren t₁ old)).Charted := by
  have horphans := orphans_of_place h hs fun c hcs hpar => hc.place h hcs hpar
  exact (hp.charted h.erase horphans (hc.erase old.nid)).setHasChildren (hp.sound h.erase) _ _

end Outline.Arrange
