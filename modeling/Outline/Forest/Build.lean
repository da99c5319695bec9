import Outline.Forest.Item

/-!
From rows to forests.

Rows come in preorder and say only how deep they lie. A row adopts the deeper rows that follow it,
up to the first that is not deeper. Built from the last row to the first, this needs no look-ahead:
the leading trees that lie deeper than a new row become its children.
-/
namespace Outline.BookForest
set_option autoImplicit false

/-- The rows from a least depth on. A row above it is left out together with the deeper rows that
follow; the first argument is the depth of such a row while its followers are passed over. -/
def rowsFrom (minDepth : Nat) : Option Nat → List Link → List Link
  | _, [] => []
  | hidden, l :: ls =>
    if hidden.any (· < l.depth) then rowsFrom minDepth hidden ls
    else if l.depth < minDepth then rowsFrom minDepth (some l.depth) ls
    else l :: rowsFrom minDepth none ls

/-- A forest with a row in front: the leading trees that lie deeper than the row come below it. -/
def adopt (active : PageId → Bool) (l : Link) (f : BookForest) : BookForest :=
  .cons ⟨l, none, active l.nid⟩
    (f.takeWhile (l.depth < ·.link.depth)) (f.dropWhile (l.depth < ·.link.depth))

/-- The forest of rows in preorder. -/
def ofRows (active : PageId → Bool) : List Link → BookForest
  | [] => .nil
  | l :: ls => adopt active l (ofRows active ls)

/-- The forest of the rows from a least depth on, with the pages of `active` marked. -/
def build (active : PageId → Bool) (minDepth : Nat) (rows : List Link) : BookForest :=
  ofRows active (rowsFrom minDepth none rows)

end Outline.BookForest
