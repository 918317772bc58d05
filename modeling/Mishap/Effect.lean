import Mishap.Breaker.State
import Mishap.Json.Printer

/-!
# Effects

What an operation makes the world outside notice, as data: records that loggers receive, notices
that observers receive, events of the event stream, and calls of callbacks. An operation returns
its effects in the order in which they happen.
`faultline` specification §4, modules `logger`, `observer` and `observability`.
-/

namespace Mishap

/-- The levels of records and events, the gravest first. -/
inductive Level where
  | error
  | warn
  | info
  | debug
  | trace
  deriving DecidableEq, Repr

namespace Level

/-- The name of a level. -/
def name : Level → String
  | error => "ERROR"
  | warn => "WARN"
  | info => "INFO"
  | debug => "DEBUG"
  | trace => "TRACE"

/-- How verbose a level is. -/
def verbosity : Level → Nat
  | error => 1
  | warn => 2
  | info => 3
  | debug => 4
  | trace => 5

end Level

/-- A field of a record: its name and its value. -/
abbrev LogField := String × Json

/-- The fields of an alternating list of names and values. A pair whose first part is not a text is
dropped, and so is a last name without a value. Models `fields_from_flat` of module `logger`. -/
def fieldsOfFlat : List Json → List LogField
  | .string k :: v :: rest => (k, v) :: fieldsOfFlat rest
  | _ :: _ :: rest => fieldsOfFlat rest
  | _ => []

/-- The fields as an object; of two with one name the later stands. Models `fields_to_json` of
module `logger`. -/
def fieldsToJson (fields : List LogField) : Json := Json.ofEntries fields

/-- The value of an event's field. -/
inductive EventValue where
  | text (s : String)
  | number (n : Nat)
  deriving DecidableEq, Repr

/-- An event of the event stream. -/
structure Event where
  level : Level
  /-- The part of the program that it comes from. -/
  target : String
  message : String
  fields : List (String × EventValue)
  deriving DecidableEq, Repr

/-- The names of the fields of an event; its message is one of them. -/
def Event.fieldNames (e : Event) : List String := "message" :: e.fields.map (·.1)

/-- An effect. -/
inductive Effect where
  | logged (logger : String) (level : Level) (message : String) (fields : List LogField)
  | errorObserved (observer : String) (message : String)
  | transitionObserved (observer : String) (circuit : String) (before after : CircuitState)
  | errorCounted (meter : String)
  | transitionCounted (meter : String) (circuit : String) (after : CircuitState)
  | event (e : Event)
  | called (callback : String) (circuit : String) (before after : CircuitState)
  deriving Repr

/-- A receiver of records: one that is known by name, or the event stream. Models `Logger` of module
`logger`, with the stream logger of module `observability`. -/
inductive Logger where
  | recorder (name : String)
  | stream
  deriving DecidableEq, Repr

namespace Logger

/-- Where the events of the stream logger come from. -/
def target : String := "faultline_observability::logger"

/-- The event for a record: its fields are attached as one JSON text. -/
def eventOf (level : Level) (message : String) (fields : List LogField) : Event :=
  { level, target, message, fields := [("fields", .text (fieldsToJson fields).compact)] }

/-- Hands a record to the logger. -/
def log (l : Logger) (level : Level) (message : String) (fields : List LogField) : Effect :=
  match l with
  | recorder name => .logged name level message fields
  | stream => .event (eventOf level message fields)

end Logger

/-- A receiver of notices. Models `Observer` of module `observer`, with the observers of module
`observability`. -/
inductive Observer where
  | silent
  | recorder (name : String)
  | stream
  | meter (name : String)
  deriving DecidableEq, Repr

namespace Observer

/-- Where the events of the stream observer come from. -/
def target : String := "faultline_observability::observer"

/-- Tells the observer that an error was reported. Models `record_error` of each of these
observers. -/
def recordError (o : Observer) (message : String) : List Effect :=
  match o with
  | silent => []
  | recorder name => [.errorObserved name message]
  | stream =>
    [.event { level := .error, target, message := "error recorded",
              fields := [("error", .text message)] }]
  | meter name => [.errorCounted name]

/-- Tells the observer that a circuit changed its state. Models `record_circuit_state_transition` of
each of these observers. -/
def recordTransition (o : Observer) (circuit : String) (before after : CircuitState) :
    List Effect :=
  match o with
  | silent => []
  | recorder name => [.transitionObserved name circuit before after]
  | stream =>
    [.event { level := if after = .open then .warn else .info, target,
              message := "circuit state transition",
              fields := [("circuit", .text circuit), ("from", .text before.display),
                ("to", .text after.display)] }]
  | meter name => [.transitionCounted name circuit after]

end Observer

end Mishap
