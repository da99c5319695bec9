/-!
Events: what is told about the work that is done.

An event names what happened and where, with what outcome, and gives details in a fixed order. How
long something took is not kept, and is written `#`.
-/
namespace Outline
set_option autoImplicit false

/-- How much an event matters, the least first. -/
inductive Level where
  | trace
  | debug
  | info
  | warn
  | error
  deriving DecidableEq

namespace Level

/-- The rank of a level. -/
def rank : Level → Nat
  | .trace => 0
  | .debug => 1
  | .info => 2
  | .warn => 3
  | .error => 4

/-- The name of a level in small letters. -/
def name : Level → String
  | .trace => "trace"
  | .debug => "debug"
  | .info => "info"
  | .warn => "warn"
  | .error => "error"

/-- The name of a level at the start of a line. -/
def label : Level → String
  | .trace => "TRACE"
  | .debug => "DEBUG"
  | .info => "INFO"
  | .warn => "WARN"
  | .error => "ERROR"

end Level

/-- Something that happened. -/
structure Event where
  level : Level
  name : String
  component : String
  status : String
  details : List (String × String) := []
  deriving DecidableEq

namespace Event

/-- How long something took. -/
def duration : String × String := ("duration_ms", "#")

/-- A detail after a space. -/
def detail (d : String × String) : String := " " ++ d.1 ++ "=" ++ d.2

/-- The text of an event. -/
def text (e : Event) : String :=
  "event=" ++ e.name ++ " module=" ++ e.component ++ " status=" ++ e.status ++
    String.join (e.details.map detail)

/-- The text of an event with its level in front. -/
def line (e : Event) : String := e.level.label ++ " " ++ e.text

end Event
end Outline
