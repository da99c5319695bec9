import Outline.Proofs.Forest.Nested
import Outline.Proofs.Store.Forest

/-!
Rows that are stored along paths.

In a whole table a row is stored along every path on the way to a page. Where pages were removed
from above others, some of these rows may be missing, and a page may be shown below one that is not
above it. The page that is above it at that level has then no row, or none that was wanted.
-/
namespace Outline
set_option autoImplicit false

/-- Whether a row is stored along a path. -/
def Table.Holds (t : Table) (path : List PageId) : Prop :=
  ∃ r ∈ t.rows, ∃ l ∈ r.link?, l.path = path

instance (t : Table) (path : List PageId) : Decidable (t.Holds path) :=
  inferInstanceAs (Decidable (∃ r ∈ t.rows, ∃ l ∈ r.link?, l.path = path))

namespace Table

variable {t : Table} {k p : Link} {path : List PageId} {n : Nat}

theorem Sound.holds_iff (h : t.Sound) :
    t.Holds path ↔ ∃ p, t.stored? p.nid = some p ∧ p.path = path := by
  constructor
  · rintro ⟨r, hr, p, hp, hpath⟩
    exact ⟨p, stored?_of_link? hr hp, hpath⟩
  · rintro ⟨p, hp, hpath⟩
    obtain ⟨hmem, hread⟩ := h.row_mem hp
    exact ⟨_, hmem, p, hread, hpath⟩

/-- What holds of pages at the top, and of a page when it holds of its parent, holds of all pages of
a whole table. -/
theorem Whole.induction (h : t.Whole) {law : Link → Prop}
    (top : ∀ k, t.stored? k.nid = some k → k.path.dropLast = [] → law k)
    (below : ∀ k p, t.stored? k.nid = some k → t.stored? p.nid = some p →
      p.path = k.path.dropLast → law p → law k) :
    ∀ k, t.stored? k.nid = some k → law k := by
  intro k hk
  induction hlen : k.path.length using Nat.strongRecOn generalizing k with
  | _ n ih =>
    rcases h.dropLast_path hk with hup | ⟨p, hp, _, hup⟩
    · exact top k hk hup
    · have hpos := List.length_pos_iff.2 (h.sound.of_stored? hk).1.path_ne_nil
      have hps := h.sound.stored?_nid hp
      refine below k p hk hps hup (ih p.path.length ?_ p hps rfl)
      rw [hup, List.length_dropLast]
      omega

theorem Whole.holds_take (h : t.Whole) (hn : 0 < n) :
    ∀ k, t.stored? k.nid = some k → t.Holds (k.path.take n) := by
  have hself : ∀ k : Link, k.path.length ≤ n → t.stored? k.nid = some k →
      t.Holds (k.path.take n) := by
    intro k hle hk
    rw [List.take_of_length_le hle]
    exact h.sound.holds_iff.2 ⟨k, hk, rfl⟩
  refine h.induction ?_ ?_
  · intro k hk hup
    have hlen := congrArg List.length hup
    rw [List.length_dropLast, List.length_nil] at hlen
    exact hself k (by omega) hk
  · intro k p hk _ hup hp
    by_cases hle : k.path.length ≤ n
    · exact hself k hle hk
    · rw [hup, List.dropLast_eq_take, List.take_take, Nat.min_eq_left (by omega)] at hp
      exact hp

/-- In a whole table the path of a page starts with those of the pages on it. -/
theorem Whole.path_of_mem (h : t.Whole) (hp : t.stored? p.nid = some p) :
    ∀ k, t.stored? k.nid = some k → p.nid ∈ k.path → p.path <+: k.path := by
  have hself : ∀ k, t.stored? k.nid = some k → p.nid = k.nid → p.path <+: k.path := by
    intro k hk heq
    rw [heq, hk] at hp
    cases hp
    exact List.prefix_rfl
  refine h.induction ?_ ?_
  · intro k hk hup hmem
    rw [(h.sound.of_stored? hk).1.valid.path_eq, hup, List.nil_append, List.mem_singleton] at hmem
    exact hself k hk hmem
  · intro k q hk _ hup hq hmem
    rw [(h.sound.of_stored? hk).1.valid.path_eq, List.mem_append, List.mem_singleton, ← hup] at hmem
    rcases hmem with hmem | heq
    · refine (hq hmem).trans ?_
      rw [hup]
      exact List.dropLast_prefix _
    · exact hself k hk heq

/-- In a whole table the pages that lie at the top or directly below a page of a path are those whose
own paths lead there. -/
theorem Whole.leads_iff (h : t.Whole) (hk : t.stored? k.nid = some k)
    (hp : t.stored? p.nid = some p) :
    p.path.dropLast <+: k.path ↔ p.pid = 0 ∨ p.pid ∈ k.path := by
  obtain ⟨hks, _⟩ := h.sound.of_stored? hk
  obtain ⟨hps, _⟩ := h.sound.of_stored? hp
  constructor
  · intro hpre
    by_cases hpid : p.pid = 0
    · exact .inl hpid
    · obtain ⟨up, hup⟩ := hps.dropLast_path_eq_concat hpid
      exact .inr (hpre.subset (by rw [hup]; simp))
  · rintro (htop | hmem)
    · rw [hps.path_of_top htop]
      exact List.nil_prefix
    · have hpid : p.pid ≠ 0 := (Int64.ne_of_lt (hks.positive _ hmem)).symm
      obtain ⟨q, hq⟩ := Option.isSome_iff_exists.1 (h.closed p hp hpid)
      obtain ⟨_, hqn⟩ := h.sound.of_stored? hq
      rw [h.linked.place p q hp hq, List.dropLast_concat]
      exact h.path_of_mem (h.sound.stored?_nid hq) k hk (by rw [hqn]; exact hmem)

/-- Around a page of a whole table, pages lie whose parents are on its path in their own place. -/
theorem Whole.leads_of_named (h : t.Whole) (hk : t.stored? k.nid = some k)
    (hp : t.stored? p.nid = some p) (hnamed : p.pid ∈ k.trail) : p.path.dropLast <+: k.path :=
  (h.leads_iff hk hp).2 ((h.sound.of_stored? hk).1.mem_trail hnamed)

/-- A page that is shown below another one has that one on its path, when a wanted row is stored
along its path at the level of the other one. -/
theorem mem_path_of_wanted (h : t.Sound) {q : Query} {active : PageId → Bool} {x : Link}
    {tree : Item × BookForest}
    (htree : tree ∈ (BookForest.ofRows active (t.chosen q)).subtrees) (hx : x ∈ tree.2.links)
    (hholds : t.Holds (x.path.take tree.1.link.depth))
    (hwants : ∀ p : Link, p.Sound → p.path <+: x.path → p.depth = tree.1.link.depth →
      q.wants (.ofLink p) = true) :
    tree.1.link.nid ∈ x.path := by
  have hxs := sound_of_mem_chosen h (BookForest.mem_rows_of_mem_below htree hx)
  obtain ⟨p, hp, hpath⟩ := h.holds_iff.1 hholds
  have hps := (h.of_stored? hp).1
  have hpre : p.path <+: x.path := by
    rw [hpath]
    exact List.take_prefix _ _
  have hlevel : p.depth = tree.1.link.depth := by
    have hdeeper := BookForest.depth_lt_of_mem_below htree hx
    rw [← hps.length_path, hpath, List.length_take, hxs.length_path]
    omega
  have hself := BookForest.eq_of_mem_below (pairwise_chosen h q)
    (fun k hk => (sound_of_mem_chosen h hk).length_path) htree hx
    ((mem_chosen h).2 ⟨hp, hwants p hps hpre hlevel⟩) hlevel hpre
  rw [← hself]
  exact hpre.subset hps.nid_mem_path

end Table

end Outline
