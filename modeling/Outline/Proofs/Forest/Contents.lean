import Outline.Forest.Contents
import Outline.Proofs.Forest.Preorder
import Outline.Proofs.Link.Sound

/-!
What a table of contents lists.

Siblings are listed together or not at all: one page below the limit hides them all, even one that is
left out itself. Pages are left out one by one, each with all that is below it. Where siblings lie at
one depth, and pages deeper than the page above them, both come to this: a page is listed when it lies
within the limit and neither it nor a page above it is left out.
-/
namespace Outline
set_option autoImplicit false

namespace Forest

variable {α : Type} {f : Forest α} {above : List α} {place : α × List α}

/-- All items in preorder, each with the items above it, the nearest last. The forest itself lies
below the items in `above`. -/
def withAbove (above : List α) : Forest α → List (α × List α)
  | nil => []
  | cons item below rest =>
    (item, above) :: (withAbove (above ++ [item]) below ++ withAbove above rest)

theorem map_fst_withAbove (above : List α) (f : Forest α) :
    (f.withAbove above).map Prod.fst = f.preorder := by
  induction f generalizing above with
  | nil => rfl
  | cons item below rest ihbelow ihrest =>
    rw [withAbove, List.map_cons, List.map_append, ihbelow, ihrest, preorder]

theorem above_subset (h : place ∈ f.withAbove above) : above ⊆ place.2 := by
  induction f generalizing above with
  | nil => cases h
  | cons item below rest ihbelow ihrest =>
    rw [withAbove, List.mem_cons, List.mem_append] at h
    rcases h with rfl | h | h
    · exact List.Subset.refl above
    · exact List.Subset.trans (List.subset_append_left above [item]) (ihbelow h)
    · exact ihrest h

end Forest

namespace ContentsScope

/-- Whether a page is listed: it lies within the limit, and neither it nor a page above it is left
out. -/
def Lists (scope : ContentsScope) (place : Item × List Item) : Prop :=
  place.1.link.depth ≤ scope.depthLimit ∧
    ∀ item ∈ place.1 :: place.2, item.link.nid ∉ scope.exclude

instance (scope : ContentsScope) (place : Item × List Item) : Decidable (scope.Lists place) :=
  inferInstanceAs (Decidable (_ ∧ _))

end ContentsScope

namespace BookForest

variable {scope : ContentsScope} {f below rest : BookForest} {item : Item} {above : List Item}
  {limit : Nat}

/-- Whether siblings lie at one depth, and pages deeper than the page above them. -/
structure Levelled (f : BookForest) : Prop where
  tops : ∀ a ∈ f.tops, ∀ b ∈ f.tops, a.link.depth = b.link.depth
  siblings : ∀ tree ∈ f.subtrees, ∀ a ∈ tree.2.tops, ∀ b ∈ tree.2.tops,
    a.link.depth = b.link.depth
  deeper : ∀ tree ∈ f.subtrees, ∀ x ∈ tree.2.tops, tree.1.link.depth < x.link.depth

instance (f : BookForest) : Decidable f.Levelled :=
  decidable_of_iff
    ((∀ a ∈ f.tops, ∀ b ∈ f.tops, a.link.depth = b.link.depth) ∧
      (∀ tree ∈ f.subtrees, ∀ a ∈ tree.2.tops, ∀ b ∈ tree.2.tops, a.link.depth = b.link.depth) ∧
      ∀ tree ∈ f.subtrees, ∀ x ∈ tree.2.tops, tree.1.link.depth < x.link.depth)
    ⟨fun h => ⟨h.1, h.2.1, h.2.2⟩, fun h => ⟨h.tops, h.siblings, h.deeper⟩⟩

theorem Levelled.of_below (h : Levelled (.cons item below rest)) : below.Levelled where
  tops := h.siblings (item, below) List.mem_cons_self
  siblings tree htree :=
    h.siblings tree (List.mem_cons_of_mem _ (List.mem_append_left _ htree))
  deeper tree htree := h.deeper tree (List.mem_cons_of_mem _ (List.mem_append_left _ htree))

theorem Levelled.of_rest (h : Levelled (.cons item below rest)) : rest.Levelled where
  tops a ha b hb := h.tops a (List.mem_cons_of_mem _ ha) b (List.mem_cons_of_mem _ hb)
  siblings tree htree :=
    h.siblings tree (List.mem_cons_of_mem _ (List.mem_append_right _ htree))
  deeper tree htree := h.deeper tree (List.mem_cons_of_mem _ (List.mem_append_right _ htree))

/-- No page lies higher than the top ones. -/
theorem Levelled.depth_lt (h : f.Levelled) (htops : ∀ top ∈ f.tops, limit < top.link.depth)
    (hitem : item ∈ f.preorder) : limit < item.link.depth := by
  induction f with
  | nil => cases hitem
  | cons first below rest ihbelow ihrest =>
    have hfirst := htops first List.mem_cons_self
    rw [Forest.preorder, List.mem_cons, List.mem_append] at hitem
    rcases hitem with rfl | hitem | hitem
    · exact hfirst
    · refine ihbelow h.of_below (fun top htop => ?_) hitem
      exact Nat.lt_trans hfirst (h.deeper (first, below) List.mem_cons_self top htop)
    · exact ihrest h.of_rest (fun top htop => htops top (List.mem_cons_of_mem _ htop)) hitem

/-- Where the siblings at the top are too deep, all pages are. -/
theorem Levelled.depth_lt_of_isTooDeep (h : f.Levelled) (hdeep : isTooDeep scope f = true)
    (hitem : item ∈ f.preorder) : scope.depthLimit < item.link.depth := by
  rw [isTooDeep, List.any_eq_true] at hdeep
  obtain ⟨deep, hmem, hlt⟩ := hdeep
  refine h.depth_lt (fun top htop => ?_) hitem
  rw [h.tops top htop deep hmem]
  exact of_decide_eq_true hlt

/-- Nothing is listed below a page that is left out. -/
theorem filter_lists_of_excluded (hitem : item ∈ above) (hout : item.link.nid ∈ scope.exclude) :
    (f.withAbove above).filter (scope.Lists ·) = [] := by
  rw [List.filter_eq_nil_iff]
  intro place hplace hlists
  have hkept := (of_decide_eq_true hlists).2 item
    (List.mem_cons_of_mem _ (Forest.above_subset hplace hitem))
  exact hkept hout

theorem filter_lists_of_deep (hdeep : ∀ x ∈ f.preorder, scope.depthLimit < x.link.depth) :
    (f.withAbove above).filter (scope.Lists ·) = [] := by
  rw [List.filter_eq_nil_iff]
  intro place hplace hlists
  have hitem : place.1 ∈ f.preorder := by
    rw [← Forest.map_fst_withAbove above f]
    exact List.mem_map_of_mem hplace
  exact absurd (of_decide_eq_true hlists).1 (Nat.not_le.2 (hdeep place.1 hitem))

/-- The indentation of a page with a number of pages above it. -/
def indentation (levels : Nat) : String := String.join (List.replicate levels contentsIndent)

theorem indentation_succ (levels : Nat) :
    indentation (levels + 1) = indentation levels ++ contentsIndent := by
  rw [indentation, List.replicate_succ', String.join_append, indentation]
  simp

/-- The lines of siblings within the limit, below pages that are not left out. -/
theorem contentsLines_eq (h : f.Levelled) (hshown : isTooDeep scope f = false)
    (hkept : ∀ item ∈ above, item.link.nid ∉ scope.exclude) :
    contentsLines scope (indentation above.length) f =
      ((f.withAbove above).filter (scope.Lists ·)).map fun place =>
        contentsLine scope (indentation place.2.length) place.1 := by
  induction f generalizing above with
  | nil => rfl
  | cons item below rest ihbelow ihrest =>
    rw [isTooDeep, Forest.tops, List.any_cons, Bool.or_eq_false_iff] at hshown
    obtain ⟨hitem, hrest⟩ := hshown
    have hlater := ihrest h.of_rest hrest hkept
    rw [contentsLines, Forest.withAbove, List.filter_cons, List.filter_append, hlater]
    by_cases hout : item.link.nid ∈ scope.exclude
    · have hgone : ¬ scope.Lists (item, above) := fun hlists =>
        hlists.2 item List.mem_cons_self hout
      have hnone := filter_lists_of_excluded (f := below)
        (List.mem_append_right above (List.mem_singleton_self item)) hout
      rw [if_pos (List.contains_iff_mem.2 hout), decide_eq_false hgone, hnone]
      rfl
    · have hlisted : scope.Lists (item, above) :=
        ⟨Nat.not_lt.1 (of_decide_eq_false hitem), List.forall_mem_cons.2 ⟨hout, hkept⟩⟩
      have hlines : (if isTooDeep scope below = true then []
          else contentsLines scope (indentation above.length ++ contentsIndent) below) =
          ((Forest.withAbove (above ++ [item]) below).filter (scope.Lists ·)).map fun place =>
            contentsLine scope (indentation place.2.length) place.1 := by
        split
        · next hdeep =>
          rw [filter_lists_of_deep fun x hx => h.of_below.depth_lt_of_isTooDeep hdeep hx]
          rfl
        · next hshown =>
          have hnext : ∀ x ∈ above ++ [item], x.link.nid ∉ scope.exclude :=
            List.forall_mem_append.2 ⟨hkept, List.forall_mem_singleton.2 hout⟩
          have hbelow := ihbelow h.of_below (Bool.eq_false_iff.2 hshown) hnext
          rw [List.length_append, List.length_singleton, indentation_succ] at hbelow
          exact hbelow
      rw [if_neg (mt List.contains_iff_mem.1 hout), decide_eq_true hlisted, hlines, if_pos rfl,
        List.map_cons, List.map_append, List.cons_append]

/-- A table of contents has, in preorder, a line for each page that lies within the limit, is not left
out and has no page above it that is: two hyphens for each level above it, a space, and its title
cut to the width. -/
theorem contents_eq_lines (scope : ContentsScope) (f : BookForest) (h : f.Levelled) :
    (f.withAbove []).map Prod.fst = f.preorder ∧
      f.contents scope = ((f.withAbove []).filter (scope.Lists ·)).map fun place =>
        ⟨place.1.link.nid, String.join (List.replicate place.2.length "--") ++ " " ++
          Title.shorten (place.1.title.getD "") scope.width⟩ := by
  refine ⟨Forest.map_fst_withAbove [] f, ?_⟩
  rw [contents]
  split
  · next hdeep =>
    rw [filter_lists_of_deep fun x hx => h.depth_lt_of_isTooDeep hdeep hx]
    rfl
  · next hshown =>
    have hkept : ∀ x ∈ ([] : List Item), x.link.nid ∉ scope.exclude := fun x hx => nomatch hx
    exact contentsLines_eq h (Bool.eq_false_iff.2 hshown) hkept

/-- A book with a page without a title, two pages that lie two levels below theirs, and a page below
the limit. -/
def unevenBook : BookForest :=
  .cons ⟨.along [1] true 0, some "Handbook", false⟩
    (.cons ⟨.along [1, 2] true 0, none, false⟩
      (.cons ⟨.along [1, 2, 3, 4] true 0, some "Lists of siblings", false⟩
        (.cons ⟨.along [1, 2, 3, 4, 5] false 0, some "Deep", false⟩ .nil .nil) .nil)
      (.cons ⟨.along [1, 6] true 0, some "Left out", false⟩
        (.cons ⟨.along [1, 6, 7, 8] false 0, some "Below", false⟩ .nil .nil)
        (.cons ⟨.along [1, 9] false 0, some "Last", false⟩ .nil .nil))) .nil

/-- Down to the fourth level and without the sixth page, four pages are listed. -/
theorem contents_eq_lines_unevenBook :
    unevenBook.Levelled ∧ unevenBook.contents ⟨4, [6], 10⟩ =
      [⟨1, " Handbook"⟩, ⟨2, "-- "⟩, ⟨4, "---- Lists of…"⟩, ⟨9, "-- Last"⟩] := by
  have hlevelled : unevenBook.Levelled := by decide +kernel
  refine ⟨hlevelled, ?_⟩
  rw [(contents_eq_lines ⟨4, [6], 10⟩ unevenBook hlevelled).2]
  decide

end BookForest

end Outline
