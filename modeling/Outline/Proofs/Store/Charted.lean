import Mathlib.Data.List.Induction
import Outline.Proofs.Store.Consistent

/-!
Pages that are not above themselves.

The paths of a table that lead to a page, stored or not, have to lead to it in the same way. No path
then holds a page twice, and on the way from a page to its parent, and on to the parent of that, each
page lies one level above the one before.
-/
namespace Outline
set_option autoImplicit false

/-- Whether a path leads to each of its pages along the page's route. -/
def FollowsRoutes (route : PageId → List PageId) (path : List PageId) : Prop :=
  ∀ up id, up ++ [id] <+: path → route id = up ++ [id]

theorem followsRoutes_nil (route : PageId → List PageId) : FollowsRoutes route [] := by
  intro up id hup
  simp at hup

namespace FollowsRoutes

variable {route route' : PageId → List PageId} {path path' up rest : List PageId} {id : PageId}

theorem of_isPrefix (h : FollowsRoutes route path) (hpre : path' <+: path) :
    FollowsRoutes route path' :=
  fun up id hup => h up id (hup.trans hpre)

/-- There is one way to a page. -/
theorem eq_of_concat {up' : List PageId} (h : FollowsRoutes route (up ++ [id]))
    (h' : FollowsRoutes route (up' ++ [id])) : up = up' :=
  List.append_cancel_right ((h up id List.prefix_rfl).symm.trans (h' up' id List.prefix_rfl))

theorem congr (h : FollowsRoutes route path) (hsame : ∀ id ∈ path, route' id = route id) :
    FollowsRoutes route' path := by
  intro up id hup
  rw [hsame id (hup.subset (by simp)), h up id hup]

/-- A path may go on where the routes do. -/
theorem append (h : FollowsRoutes route path)
    (hrest : ∀ more id, more ++ [id] <+: rest → route id = path ++ (more ++ [id])) :
    FollowsRoutes route (path ++ rest) := by
  intro up id hup
  rcases List.prefix_or_prefix_of_prefix hup (List.prefix_append path rest) with hpre | ⟨s, hs⟩
  · exact h up id hpre
  · rcases List.eq_nil_or_concat s with rfl | ⟨more, last, rfl⟩
    · rw [List.append_nil] at hs
      exact h up id (hs ▸ List.prefix_rfl)
    · rw [← hs, List.prefix_append_right_inj, List.concat_eq_append] at hup
      rw [← hs, List.concat_eq_append]
      have hlast : last = id := by
        have heq := congrArg List.getLast? hs
        simpa using heq
      rw [← hlast]
      exact hrest more last hup

theorem concat (h : FollowsRoutes route path) (hid : route id = path ++ [id]) :
    FollowsRoutes route (path ++ [id]) := by
  refine h.append fun more last hmore => ?_
  have hlen := hmore.length_le
  simp only [List.length_append, List.length_singleton] at hlen
  obtain rfl := List.eq_nil_of_length_eq_zero (show more.length = 0 by omega)
  rw [List.singleton_inj.1 (hmore.eq_of_length rfl), hid]
  rfl

/-- A path that follows the routes holds no page twice, as there is one way to each. -/
theorem nodup (h : FollowsRoutes route path) : path.Nodup := by
  induction path using List.reverseRecOn with
  | nil => exact List.nodup_nil
  | append_singleton path id ih =>
    have hend := h path id List.prefix_rfl
    rw [List.nodup_append]
    refine ⟨ih (h.of_isPrefix (List.prefix_append _ _)), by simp, ?_⟩
    rintro x hx y hy rfl
    obtain rfl := List.mem_singleton.1 hy
    obtain ⟨up, below, rfl⟩ := List.append_of_mem hx
    have hfirst := h up x ⟨below ++ [x], by simp⟩
    rw [hend] at hfirst
    have hlen := congrArg List.length hfirst
    simp at hlen

end FollowsRoutes

/-- The start of a path, up to a moved page, put in place of another one. -/
def rerouted (old new path : List PageId) : List PageId :=
  if old <+: path then new ++ path.drop old.length else path

namespace FollowsRoutes

variable {route : PageId → List PageId} {old path up : List PageId} {id : PageId}

theorem rerouted_append (old new rest : List PageId) :
    rerouted old new (old ++ rest) = new ++ rest := by
  rw [rerouted, if_pos (List.prefix_append _ _), List.drop_left]

/-- When all that starts with a page's path is moved along, every path follows the routes that are
moved along in the same way. The page must not be on the path that it comes to lie below. -/
theorem reroute (h : FollowsRoutes route path) (hold : FollowsRoutes route (old ++ [id]))
    (hup : FollowsRoutes route up) (hfree : id ∉ up) :
    FollowsRoutes (fun x => rerouted (old ++ [id]) (up ++ [id]) (route x))
      (rerouted (old ++ [id]) (up ++ [id]) path) := by
  have hkept : ∀ {q : List PageId}, FollowsRoutes route q → ¬ old ++ [id] <+: q →
      FollowsRoutes (fun x => rerouted (old ++ [id]) (up ++ [id]) (route x)) q := by
    intro q hq hnot more x hmore
    have hroute := hq more x hmore
    simp only [hroute]
    rw [rerouted, if_neg fun hpre => hnot (hpre.trans hmore)]
  by_cases hpre : old ++ [id] <+: path
  · -- Up to the moved page the path is new; what lies below the page comes along as it is.
    obtain ⟨rest, rfl⟩ := hpre
    have hnot : ¬ old ++ [id] <+: up := fun hpre => hfree (hpre.subset (by simp))
    have hid : route id = old ++ [id] := hold old id List.prefix_rfl
    rw [rerouted_append]
    refine (FollowsRoutes.concat (hkept hup hnot) ?_).append fun more x hmore => ?_
    · simpa [hid] using rerouted_append (old ++ [id]) (up ++ [id]) []
    · have hroute : route x = old ++ [id] ++ (more ++ [x]) := by
        rw [h (old ++ [id] ++ more) x, List.append_assoc]
        rw [List.append_assoc]
        exact (List.prefix_append_right_inj _).2 hmore
      simp only [hroute, rerouted_append]
  · rw [rerouted, if_neg hpre]
    exact hkept h hpre

end FollowsRoutes

/-- Whether the paths of all stored pages follow the same routes. -/
def Table.Charted (t : Table) : Prop :=
  ∃ route, ∀ k, t.stored? k.nid = some k → FollowsRoutes route k.path

namespace Table

variable {t t' : Table} {l : Link}

theorem charted_empty : Table.empty.Charted := ⟨fun _ => [], fun _ hk => nomatch hk⟩

/-- A write that puts every stored link through a function that keeps the paths. -/
theorem Charted.of_map {f : Link → Link} (hc : t.Charted) (h : t.Sound)
    (hstored : ∀ y, t'.stored? y = (t.stored? y).map f) (hpath : ∀ k, (f k).path = k.path) :
    t'.Charted := by
  obtain ⟨route, hroute⟩ := hc
  refine ⟨route, fun k' hk' => ?_⟩
  rw [hstored, Option.map_eq_some_iff] at hk'
  obtain ⟨k, hk, rfl⟩ := hk'
  rw [hpath]
  exact hroute k (h.stored?_nid hk)

theorem Charted.setHasChildren (hc : t.Charted) (h : t.Sound) (nid : PageId) (value : Bool) :
    (t.setHasChildren nid value).Charted :=
  hc.of_map h (stored?_setHasChildren h nid · value) fun k => k.path_flagged nid value

theorem Charted.weigh (hc : t.Charted) (h : t.Sound) (hs : t.stored? l.nid = some l)
    (weight : Int32) : (t.put (.ofLink { l with weight := weight })).Charted :=
  hc.of_map h (stored?_weigh h hs weight) fun k => k.path_weighed l.nid weight

theorem Charted.erase (hc : t.Charted) (nid : PageId) : (t.erase nid).Charted := by
  obtain ⟨route, hroute⟩ := hc
  refine ⟨route, fun k hk => hroute k ?_⟩
  rw [stored?_erase] at hk
  split at hk
  · cases hk
  · exact hk

/-- A new page comes to lie where the paths hold it already, or gets a route that ends with it. -/
theorem Charted.put_new {up : List PageId} (hc : t.Charted) (hl : l.Sound)
    (hpath : l.path = up ++ [l.nid])
    (hup : up = [] ∨ ∃ p, t.stored? p.nid = some p ∧ p.path = up)
    (hplace : ∀ k, t.stored? k.nid = some k → l.nid ∈ k.path → l.path <+: k.path) :
    (t.put (.ofLink l)).Charted := by
  obtain ⟨route, hroute⟩ := hc
  -- The routes can stay when one of the paths holds the page. When none does, its route is free.
  have hroutes : ∃ route', FollowsRoutes route' l.path ∧
      ∀ k, t.stored? k.nid = some k → FollowsRoutes route' k.path := by
    by_cases hheld : ∃ k, t.stored? k.nid = some k ∧ l.nid ∈ k.path
    · obtain ⟨k, hk, hmem⟩ := hheld
      exact ⟨route, (hroute k hk).of_isPrefix (hplace k hk hmem), hroute⟩
    · have hkept : ∀ k, t.stored? k.nid = some k →
          FollowsRoutes (Function.update route l.nid l.path) k.path := by
        intro k hk
        refine (hroute k hk).congr fun id hid => Function.update_of_ne ?_ _ _
        rintro rfl
        exact hheld ⟨k, hk, hid⟩
      have hupper : FollowsRoutes (Function.update route l.nid l.path) up := by
        rcases hup with rfl | ⟨p, hp, rfl⟩
        · exact followsRoutes_nil _
        · exact hkept p hp
      have hend : FollowsRoutes (Function.update route l.nid l.path) (up ++ [l.nid]) :=
        hupper.concat (by rw [Function.update_self, hpath])
      rw [← hpath] at hend
      exact ⟨_, hend, hkept⟩
  obtain ⟨route', hnew, hkept⟩ := hroutes
  refine ⟨route', fun k hk => ?_⟩
  rw [stored?_put hl] at hk
  split at hk
  · cases hk
    exact hnew
  · exact hkept k hk

/-- A page lies one level below its parent, since there is one way to the parent. -/
theorem Charted.place (hc : t.Charted) (h : t.Sound) {p : Link} (hl : t.stored? l.nid = some l)
    (hp : t.stored? l.pid = some p) : l.path = p.path ++ [l.nid] := by
  obtain ⟨route, hroute⟩ := hc
  have hls := (h.of_stored? hl).1
  obtain ⟨hps, hpn⟩ := h.of_stored? hp
  obtain ⟨up, hup⟩ := hls.dropLast_path_eq_concat (hpn ▸ hps.nid_ne_zero)
  have hupper : FollowsRoutes route (up ++ [l.pid]) := by
    rw [← hup]
    exact (hroute l hl).of_isPrefix (List.dropLast_prefix _)
  have hparent : FollowsRoutes route (p.path.dropLast ++ [l.pid]) := by
    rw [← hpn, ← hps.valid.path_eq]
    exact hroute p (h.stored?_nid hp)
  have hsame : l.path.dropLast = p.path := by
    rw [hup, hupper.eq_of_concat hparent, ← hpn, ← hps.valid.path_eq]
  rw [← hsame]
  exact hls.valid.path_eq

/-- The page that is reached from a page by going up to its parent some number of times, every page
on the way being stored. -/
def climb (t : Table) : Nat → PageId → Option PageId
  | 0, nid => (t.stored? nid).map Link.nid
  | k + 1, nid => (t.stored? nid).bind fun l => t.climb k l.pid

/-- With each time the page lies one level higher. -/
theorem Charted.depth_climb (hc : t.Charted) (h : t.Sound) {top : PageId} :
    ∀ (k : Nat) {nid : PageId}, t.climb k nid = some top →
      ∃ l p, t.stored? nid = some l ∧ t.stored? top = some p ∧ p.depth + k = l.depth := by
  intro k
  induction k with
  | zero =>
    intro nid hclimb
    obtain ⟨l, hl, rfl⟩ := Option.map_eq_some_iff.1 hclimb
    exact ⟨l, l, hl, h.stored?_nid hl, rfl⟩
  | succ k ih =>
    intro nid hclimb
    obtain ⟨l, hl, hup⟩ := Option.bind_eq_some_iff.1 hclimb
    obtain ⟨q, p, hq, hp, hdepth⟩ := ih hup
    have hlen := congrArg List.length (hc.place h (h.stored?_nid hl) hq)
    rw [(h.of_stored? hl).1.length_path, List.length_append, (h.of_stored? hq).1.length_path,
      List.length_singleton] at hlen
    refine ⟨l, p, hl, hp, ?_⟩
    omega

/-- No page is reached again on the way up from it. -/
theorem Charted.climb_ne (hc : t.Charted) (h : t.Sound) (k : Nat) (nid : PageId) :
    t.climb (k + 1) nid ≠ some nid := by
  intro hclimb
  obtain ⟨l, p, hl, hp, hdepth⟩ := hc.depth_climb h (k + 1) hclimb
  rw [hl] at hp
  cases hp
  omega

end Table

end Outline
