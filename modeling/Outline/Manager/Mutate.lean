import Outline.Manager.Basic

/-!
Changing an outline: starting books, placing, moving and removing pages.

Each change is one transaction, which may meet a hindrance. Its outcome is told first; then, if it
was not refused, the forests of all books it touched are dropped from the cache.
-/
namespace Outline.Manager
set_option autoImplicit false

/-- The kinds of change that are told about. -/
inductive Change where
  | save
  | move
  | delete
  deriving DecidableEq

/-- The name under which a change is told about. -/
def Change.name : Change → String
  | .save => "outline_save"
  | .move => "outline_move"
  | .delete => "outline_delete"

/-- What is told about a change that was made. -/
def changed (change : Change) (nid : PageId) : Event :=
  ⟨.info, change.name, "outline", "ok", [("nid", Decimal.text nid.toInt), Event.duration]⟩

/-- What is told about a change that was refused. A fault of the store is an error, a refusal of any
other kind only a warning. -/
def refused (change : Change) (nid : PageId) : OutlineFault → Event
  | .storeUnavailable fault =>
    ⟨.error, change.name, "outline", "error",
      [("nid", Decimal.text nid.toInt), Event.duration, ("error_code", "store_unavailable"),
        ("error", fault.message)]⟩
  | refusal =>
    ⟨.warn, change.name, "outline", "rejected",
      [("nid", Decimal.text nid.toInt), Event.duration, ("error", refusal.message)]⟩

/-- An operation whose outcome is told. -/
def told {α : Type} (change : Change) (nid : PageId) (operation : Managed α) : Managed α := fun m =>
  match operation m with
  | .ok a m' => .ok a (m'.tell [changed change nid])
  | .error refusal m' => .error refusal (m'.tell [refused change nid refusal])

/-- Drops the forests of books from the cache. -/
def forget (bids : List PageId) : Managed Unit := fun m =>
  .ok () ({ m with cache := bids.foldl Cache.dropBook m.cache }.tell (bids.map Cache.dropped))

/-- Starts a book whose top page is `nid`. -/
def addRootAgainst (hindrance : Option Hindrance) (nid : PageId) (weight : Int32) :
    Managed Link := do
  let l := Link.root nid weight
  told .save nid (atomically hindrance (Arrange.addRoot l))
  forget [l.bid]
  return l

/-- Places a page under a parent. -/
def addChildAgainst (hindrance : Option Hindrance) (nid pid : PageId) (weight : Int32) :
    Managed Link := do
  let l ← told .save nid (atomically hindrance (Arrange.addChild nid pid weight))
  forget [l.bid]
  return l

/-- Moves a page and all below it under a parent, zero making it a book root. Without a weight it
keeps the one it has. -/
def moveAgainst (hindrance : Option Hindrance) (nid pid : PageId) (weight : Option Int32) :
    Managed Link := do
  let (moved, touched) ← told .move nid <| atomically hindrance do
    Arrange.move (← Arrange.linkOf nid) pid weight
  forget touched
  return moved

/-- Removes a page from its book. -/
def deleteAgainst (hindrance : Option Hindrance) (nid : PageId) : Managed Unit := do
  let touched ← told .delete nid (atomically hindrance (Arrange.delete nid))
  forget touched

/-- The book that a page is asked to be in. -/
inductive Destination where
  | none
  | new
  | existing (bid : PageId)
  deriving DecidableEq

/-- A request to place a page. -/
structure Request where
  nid : PageId
  book : Destination
  pid : Option PageId
  weight : Int32
  deriving DecidableEq

/-- The book of a request, none when the page is not meant to be in a book. -/
def Request.bid? (r : Request) : Option PageId :=
  match r.book with
  | .none => Option.none
  | .new => some r.nid
  | .existing bid => some bid

/-- The parent of a request in a book: zero for the book's own root, else the parent asked for, or
the root when none is asked for. -/
def Request.parentIn (r : Request) (bid : PageId) : PageId :=
  if bid = r.nid then 0 else (r.pid.filter (0 < ·)).getD bid

/-- Does what a request asks for: moves a page that has a link, and places one that has none. -/
def updateAgainst (hindrance : Option Hindrance) (r : Request) : Managed (Option Link) := do
  match r.bid? with
  | Option.none => return Option.none
  | some bid =>
    let pid := r.parentIn bid
    if (← look (·.link? r.nid)).isSome then
      return some (← moveAgainst hindrance r.nid pid (some r.weight))
    else if pid = 0 then return some (← addRootAgainst hindrance r.nid r.weight)
    else return some (← addChildAgainst hindrance r.nid pid r.weight)

/-! Changes that meet no hindrance. -/

/-- Starts a book whose top page is `nid`. -/
def addRoot (nid : PageId) (weight : Int32) : Managed Link := addRootAgainst none nid weight

/-- Places a page under a parent. -/
def addChild (nid pid : PageId) (weight : Int32) : Managed Link :=
  addChildAgainst none nid pid weight

/-- Moves a page and all below it under a parent. -/
def move (nid pid : PageId) (weight : Option Int32) : Managed Link :=
  moveAgainst none nid pid weight

/-- Removes a page from its book. -/
def delete (nid : PageId) : Managed Unit := deleteAgainst none nid

/-- Does what a request asks for. -/
def update (r : Request) : Managed (Option Link) := updateAgainst none r

end Outline.Manager
