import Outline.Content
import Outline.Forest.Visible
import Outline.Proofs.Forest.Sorted
import Outline.Proofs.Store.Consistent

/-!
What is left of a forest when titles are filled in.

A page without a title goes with all that is below it. Of a forest made from rows in preorder, just
those rows are left whose paths hold pages with titles only.
-/
namespace Outline
set_option autoImplicit false

namespace Content

variable {c : Content} {viewer : Viewer} {nid : PageId} {title : String}

/-- Whether a viewer is shown a page: it is known and published, and the viewer may see it. -/
def shows (c : Content) (viewer : Viewer) (nid : PageId) : Bool :=
  (c.info? nid).any ContentInfo.published && viewer nid

theorem titleFor?_eq_some_iff :
    c.titleFor? viewer nid = some title ↔
      c.shows viewer nid = true ∧ (c.info? nid).map ContentInfo.title = some title := by
  cases hinfo : c.info? nid with
  | none => simp [titleFor?, hinfo]
  | some info => simp [titleFor?, shows, hinfo]

theorem isSome_titleFor? : (c.titleFor? viewer nid).isSome = c.shows viewer nid := by
  cases hinfo : c.info? nid with
  | none => simp [titleFor?, shows, hinfo]
  | some info =>
    simp only [titleFor?, shows, hinfo, Option.bind_some, Option.any_some]
    cases info.published && viewer nid <;> rfl

end Content

namespace BookForest

variable {title? : PageId → Option String} {f : BookForest} {tree : Item × BookForest}
  {up : List PageId} {rows : List Link}

/-- Each tree that is left is one of the forest, with a title, and with what is left below it. -/
theorem mem_subtrees_withTitles (h : tree ∈ (f.withTitles title?).subtrees) :
    ∃ source ∈ f.subtrees, ∃ title, title? source.1.link.nid = some title ∧
      tree = ({ source.1 with title := some title }, withTitles title? source.2) := by
  induction f with
  | nil => cases h
  | cons item below rest ihbelow ihrest =>
    rw [withTitles] at h
    split at h
    · obtain ⟨source, hsource, hleft⟩ := ihrest h
      exact ⟨source, List.mem_cons_of_mem _ (List.mem_append_right _ hsource), hleft⟩
    · next title htitle =>
      rw [Forest.subtrees, List.mem_cons, List.mem_append] at h
      rcases h with rfl | h | h
      · exact ⟨(item, below), List.mem_cons_self, title, htitle, rfl⟩
      · obtain ⟨source, hsource, hleft⟩ := ihbelow h
        exact ⟨source, List.mem_cons_of_mem _ (List.mem_append_left _ hsource), hleft⟩
      · obtain ⟨source, hsource, hleft⟩ := ihrest h
        exact ⟨source, List.mem_cons_of_mem _ (List.mem_append_right _ hsource), hleft⟩

theorem title_of_mem_withTitles {item : Item} (h : item ∈ (f.withTitles title?).preorder) :
    ∃ title, title? item.link.nid = some title ∧ item.title = some title := by
  obtain ⟨_, htree⟩ := Forest.exists_mem_subtrees h
  obtain ⟨source, _, title, htitle, heq⟩ := mem_subtrees_withTitles htree
  cases heq
  exact ⟨title, htitle, rfl⟩

theorem tops_withTitles (title? : PageId → Option String) (f : BookForest) :
    ((f.withTitles title?).tops.map Item.link).Sublist (f.tops.map Item.link) := by
  induction f with
  | nil => exact .slnil
  | cons item below rest _ ih =>
    rw [withTitles]
    split
    · exact .cons _ ih
    · exact .cons_cons _ ih

theorem links_withTitles (title? : PageId → Option String) (f : BookForest) :
    (f.withTitles title?).links.Sublist f.links := by
  induction f with
  | nil => exact .slnil
  | cons item below rest ihbelow ihrest =>
    rw [withTitles, links_cons]
    split
    · exact .cons _ (ihrest.trans (List.sublist_append_right _ _))
    · rw [links_cons]
      exact .cons_cons _ (ihbelow.append ihrest)

/-- Whether all pages on the way from a path to a page below it have titles. -/
def titledFrom (title? : PageId → Option String) (up : List PageId) (l : Link) : Bool :=
  (l.path.drop up.length).all fun id => (title? id).isSome

theorem titledFrom_below {l x : Link} {id : PageId} (hl : l.path = up ++ [id])
    (hx : l.path <+: x.path) :
    titledFrom title? up x = ((title? id).isSome && titledFrom title? l.path x) := by
  obtain ⟨below, hbelow⟩ := hx
  simp [titledFrom, ← hbelow, hl]

/-- Rows in preorder below a path are left when all pages on the way to them have titles. -/
theorem links_withTitles_ofRows (h : Preordered up rows) (hvalid : ∀ l ∈ rows, l.Valid)
    (active : PageId → Bool) :
    ((ofRows active rows).withTitles title?).links = rows.filter (titledFrom title? up) := by
  induction rows using rows_induction generalizing up with
  | nil => rfl
  | cons l rows ihnested ihlater =>
    obtain ⟨hl, hrows⟩ := List.forall_mem_cons.1 hvalid
    have hpath : l.path = up ++ [l.nid] := by
      rw [← h.dropLast_head]
      exact hl.path_eq
    have hself : titledFrom title? up l = (title? l.nid).isSome := by
      rw [titledFrom_below hpath List.prefix_rfl]
      simp [titledFrom]
    have hnested : ∀ x ∈ nested l rows, titledFrom title? up x =
        ((title? l.nid).isSome && titledFrom title? l.path x) := fun x hx =>
      titledFrom_below hpath ((h.prefix_of_nested hx).trans (List.dropLast_prefix _))
    have ihbelow := ihnested h.of_nested fun x hx => hrows x ((nested_sublist l rows).subset hx)
    have ihrest := ihlater h.of_later fun x hx => hrows x ((later_sublist l rows).subset hx)
    rw [List.filter_cons, hself]
    conv_rhs => rw [← nested_append_later l rows, List.filter_append,
      List.filter_congr hnested, ← ihrest]
    rw [ofRows_cons, withTitles]
    split
    · next hnone => simp [hnone]
    · next title hsome =>
      simp only [hsome, Option.isSome_some, Bool.true_and, if_true]
      rw [← ihbelow]
      simp [links, Forest.preorder]

section Shown

/-- Each tree of a forest that is shown comes from one of the forest. -/
theorem mem_subtrees_shown (h : tree ∈ (f.withTitles title?).sort.subtrees) :
    ∃ source ∈ f.subtrees, tree.1.link = source.1.link ∧
      tree.2 = (withTitles title? source.2).sort := by
  obtain ⟨left, hleft, rfl⟩ := List.mem_map.1 ((subtrees_sort _).mem_iff.1 h)
  obtain ⟨source, hsource, title, _, rfl⟩ := mem_subtrees_withTitles hleft
  exact ⟨source, hsource, rfl, rfl⟩

theorem links_shown (title? : PageId → Option String) (f : BookForest) :
    (f.withTitles title?).sort.links ⊆ f.links := by
  intro l hl
  exact (links_withTitles title? f).subset ((links_sort _).mem_iff.1 hl)

theorem tops_shown (title? : PageId → Option String) (f : BookForest) :
    (f.withTitles title?).sort.tops.map Item.link ⊆ f.tops.map Item.link := by
  intro l hl
  exact (tops_withTitles title? f).subset (((tops_sort _).map _).mem_iff.1 hl)

/-- What is shown of a forest of different pages is in order. -/
theorem inOrder_shown (h : (f.links.map Link.nid).Nodup) :
    (f.withTitles title?).sort.InOrder := by
  apply inOrder_sort
  apply siblingsDiffer_of_nodup
  have hleft := h.sublist ((links_withTitles title? f).map Link.nid)
  rw [links, List.map_map] at hleft
  exact hleft

end Shown

end BookForest

end Outline
