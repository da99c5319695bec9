import Outline.Forest.Item

/-!
The part of a forest that has titles.
-/
namespace Outline.BookForest
set_option autoImplicit false

/-- The forest with titles filled in. A page without a title is left out with all that is below. -/
def withTitles (title? : PageId → Option String) : BookForest → BookForest
  | .nil => .nil
  | .cons item below rest =>
    match title? item.link.nid with
    | none => withTitles title? rest
    | some title =>
      .cons { item with title := some title } (withTitles title? below) (withTitles title? rest)

end Outline.BookForest
