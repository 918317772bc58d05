import Mishap.Effect

/-!
# What receivers are told

An observer that is not silent is told of an error by one notice, and of a change of a circuit by
one: a recorder by name, the event stream by an event with the same data as fields, a meter by what
it counts (`hearsError_recordError`, `hearsChange_recordTransition`). A logger is told of a record
by one effect that carries the whole record (`receives_write`).
-/

namespace Mishap

/-! ### Observers -/

/-- An event of the stream observer for an error: it carries the text of the error. -/
structure Event.TellsError (text : String) (e : Event) : Prop where
  level : e.level = .error
  target : e.target = Observer.target
  message : e.message = "error recorded"
  fields : e.fields = [("error", .text text)]

/-- An event of the stream observer for a change of a circuit: it carries the name of the circuit
and its states, and warns of an open circuit alone. -/
structure Event.TellsChange (circuit : String) (before after : CircuitState) (e : Event) :
    Prop where
  level : e.level = if after = .open then .warn else .info
  target : e.target = Observer.target
  message : e.message = "circuit state transition"
  fields : e.fields = [("circuit", .text circuit), ("from", .text before.display),
    ("to", .text after.display)]

namespace Observer

/-- What an observer is told of an error with a text: one notice with that text, or the count of one
more; a silent one is told nothing. -/
inductive HearsError (text : String) : Observer → List Effect → Prop
  | silent : HearsError text .silent []
  | recorder (name : String) : HearsError text (.recorder name) [.errorObserved name text]
  | stream (e : Event) (tells : e.TellsError text) : HearsError text .stream [.event e]
  | meter (name : String) : HearsError text (.meter name) [.errorCounted name]

/-- What an observer is told of a change of a circuit: one notice with the name of the circuit and
its states; a silent one is told nothing. -/
inductive HearsChange (circuit : String) (before after : CircuitState) :
    Observer → List Effect → Prop
  | silent : HearsChange circuit before after .silent []
  | recorder (name : String) : HearsChange circuit before after (.recorder name)
      [.transitionObserved name circuit before after]
  | stream (e : Event) (tells : e.TellsChange circuit before after) :
      HearsChange circuit before after .stream [.event e]
  | meter (name : String) : HearsChange circuit before after (.meter name)
      [.transitionCounted name circuit after]

/-- Every observer hears of an error that it is told of. -/
theorem hearsError_recordError (o : Observer) (text : String) :
    o.HearsError text (o.recordError text) := by
  cases o with
  | silent => exact .silent
  | recorder name => exact .recorder name
  | stream => exact .stream _ ⟨rfl, rfl, rfl, rfl⟩
  | meter name => exact .meter name

/-- Every observer hears of a change that it is told of. -/
theorem hearsChange_recordTransition (o : Observer) (circuit : String)
    (before after : CircuitState) :
    o.HearsChange circuit before after (o.recordTransition circuit before after) := by
  cases o with
  | silent => exact .silent
  | recorder name => exact .recorder name
  | stream => exact .stream _ ⟨rfl, rfl, rfl, rfl⟩
  | meter name => exact .meter name

/-- An observer hears of an error once, unless it is silent. -/
theorem HearsError.length {o : Observer} {text : String} {told : List Effect}
    (h : o.HearsError text told) : told.length = if o = .silent then 0 else 1 := by
  cases h <;> rfl

end Observer

/-! ### Loggers -/

namespace Logger

/-- What a logger is told. -/
structure Record where
  level : Level
  message : String
  fields : List LogField

/-- Hands a record to a logger. -/
def write (l : Logger) (c : Record) : Effect := l.log c.level c.message c.fields

/-- An effect that tells a logger of a record: all of it to a recorder, and to the event stream as
an event with the fields as one text of JSON. -/
inductive Receives (c : Record) : Logger → Effect → Prop
  | recorder (name : String) :
      Receives c (.recorder name) (.logged name c.level c.message c.fields)
  | stream (e : Event) (level : e.level = c.level) (target : e.target = Logger.target)
      (message : e.message = c.message)
      (fields : e.fields = [("fields", .text (fieldsToJson c.fields).compact)]) :
      Receives c .stream (.event e)

/-- Every logger receives the records that are handed to it. -/
theorem receives_write (l : Logger) (c : Record) : l.Receives c (l.write c) := by
  cases l with
  | recorder name => exact .recorder name
  | stream => exact .stream _ rfl rfl rfl rfl

end Logger

end Mishap
