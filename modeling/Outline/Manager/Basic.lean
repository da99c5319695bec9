import Outline.Cache.Forests
import Outline.Content
import Outline.Manager.Arrange
import Outline.Settings.Basic

/-!
The outline manager: a table of links, what is known about pages, and a cache of forests.

Every operation may be refused and may change the manager. Changes to the table are made inside
transactions, which take the table back to what it was when they are refused. Neither the cache nor
the journal is taken back.
-/
namespace Outline
set_option autoImplicit false

/-- A manager. The journal holds the events since it was last cleared, the oldest first. -/
structure Manager where
  table : Table
  inTransaction : Bool := false
  cache : Cache := .empty
  content : Content := .empty
  settings : Settings := {}
  journal : List Event := []

/-- An operation of a manager. -/
abbrev Managed (α : Type) := EStateM OutlineFault Manager α

namespace Manager

/-- A manager over a table, unless its settings are refused. -/
def new (table : Table) (content : Content) (settings : Settings) :
    Except SettingsFault Manager :=
  settings.check.map fun () => { table := table, content := content, settings := settings }

/-- The manager with events added to its journal. -/
def tell (m : Manager) (events : List Event) : Manager := { m with journal := m.journal ++ events }

/-- What a look at the table tells, or its fault as a refusal. -/
def look {α : Type} (f : Table → Except StoreFault α) : Managed α := fun m =>
  match f m.table with
  | .ok a => .ok a m
  | .error fault => .error (.ofStore fault) m

/-- Work on the table of the manager. -/
def onTable {α : Type} (work : TableWork α) : Managed α := fun m =>
  match work m.table with
  | .ok a t => .ok a { m with table := t }
  | .error refusal t => .error refusal { m with table := t }

/-- An operation inside a transaction that may meet a hindrance: it cannot be started, or what was
done in it cannot be kept. When the transaction or the operation is refused, the table is what it
was before. One transaction cannot be started inside another; that is a fault of the store. In one
that is not started the operation is not run; one that the engine stops in between is one whose
operation is refused. -/
def transactionAgainst (hindrance : Option Hindrance) {ε α : Type} (ofFault : StoreFault → ε)
    (operation : EStateM ε Manager α) : EStateM ε Manager α := fun m =>
  if m.inTransaction then .error (ofFault (.engine .nestedTransaction)) m
  else if let some (.atChange fault) := hindrance then .error (ofFault (.engine fault)) m
  else
    match operation { m with inTransaction := true }, hindrance with
    | .error refusal m', _ => .error refusal { m' with table := m.table, inTransaction := false }
    | .ok _ m', some (.atEnd fault) =>
      .error (ofFault (.engine fault)) { m' with table := m.table, inTransaction := false }
    | .ok a m', _ => .ok a { m' with inTransaction := false }

/-- An operation inside a transaction that meets no hindrance. -/
def transaction {ε α : Type} (ofFault : StoreFault → ε) (operation : EStateM ε Manager α) :
    EStateM ε Manager α := transactionAgainst none ofFault operation

/-- Work on the table, done as a whole or not at all. Work that the engine stops in between comes to
what work comes to that was never started. -/
def atomically (hindrance : Option Hindrance) {α : Type} (work : TableWork α) : Managed α :=
  transactionAgainst hindrance .ofStore (onTable work)

end Manager
end Outline
