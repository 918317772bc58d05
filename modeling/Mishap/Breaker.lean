import Mishap.Effect
import Mishap.Time.Instant

/-!
# Circuit breakers

A breaker counts failures. A closed circuit opens when the count reaches the limit; an open one is
half-open once more than the timeout has passed since the last failure and somebody asks; a
half-open one closes at the next success, which also resets the count. Nothing else changes the
state. Each change makes one event, one notice to the observer and one call of the callback.
`faultline` specification §4, module `circuit_breaker`.
-/

namespace Mishap

/-- How many failures open a circuit, and for how long. Models `CircuitBreakerConfig` of module
`circuit_breaker`. -/
structure BreakerSettings where
  maxFailures : Nat
  timeout : Time.Span
  deriving DecidableEq, Repr

namespace BreakerSettings

/-- Five failures, half a minute. -/
instance : Inhabited BreakerSettings := ⟨⟨5, ⟨30, 0⟩⟩⟩

/-- The exported form. -/
def toJson (s : BreakerSettings) : Json :=
  .object [("max_failures", .nat s.maxFailures), ("timeout", .string s.timeout.text)]

/-- Reads the exported form back. -/
def ofJson? (v : Json) : Option BreakerSettings :=
  match v with
  | .object [("max_failures", .number (.int n)), ("timeout", .string timeout)] => do
    let timeout ← Time.Span.read? timeout
    some ⟨n.toNat, timeout⟩
  | _ => none

end BreakerSettings

/-- A circuit breaker. Models `CircuitBreaker` of module `circuit_breaker`. -/
structure Breaker where
  name : String
  settings : BreakerSettings
  state : CircuitState
  failures : Nat
  lastFailure? : Option Time.Instant
  callback? : Option String
  observer : Observer
  deriving Repr

namespace Breaker

/-- The largest number of failures that is counted. -/
def limit : Nat := 0xFFFFFFFF

/-- A closed circuit without failures. Models `new` and `with_config` of module
`circuit_breaker`. -/
def new (name : String) (settings : BreakerSettings) : Breaker :=
  { name, settings, state := .closed, failures := 0, lastFailure? := none, callback? := none,
    observer := .silent }

/-- Where the events of breakers come from. -/
def target : String := "faultline_core::circuit_breaker"

/-- The event for a change into a state. Models the events of `transition_to` of module
`circuit_breaker`. -/
def eventOf (b : Breaker) (after : CircuitState) : Event :=
  { level := if after = .open then .warn else .info, target,
    message := "Circuit breaker → " ++ after.display,
    fields := [("circuit", .text b.name), ("from", .text b.state.display)] ++
      (if after = .open then [("failures", .number b.failures)] else []) }

/-- Changes the state, and tells of it. Models `transition_to` of module `circuit_breaker`. -/
def moveTo (after : CircuitState) (b : Breaker) : Breaker × List Effect :=
  if b.state = after then (b, [])
  else
    ({ b with state := after },
      [.event (b.eventOf after)] ++ b.observer.recordTransition b.name b.state after ++
        (b.callback?.toList.map fun tag => .called tag b.name b.state after))

/-- Takes notice of a failure. Models `record_failure` of module `circuit_breaker`. -/
def recordFailure (now : Time.Instant) (b : Breaker) : Breaker × List Effect :=
  let b := { b with failures := min (b.failures + 1) limit, lastFailure? := some now }
  if b.state = .closed ∧ b.settings.maxFailures ≤ b.failures then b.moveTo .open else (b, [])

/-- Takes notice of a success, which matters only while the circuit is half-open. Models
`record_success` of module `circuit_breaker`. -/
def recordSuccess (b : Breaker) : Breaker × List Effect :=
  if b.state = .halfOpen then { b with failures := 0 }.moveTo .closed else (b, [])

/-- More than the timeout has passed since the last failure. Models `recovery_due` of module
`circuit_breaker`. -/
def recoveryDue (now : Time.Instant) (b : Breaker) : Bool :=
  match b.lastFailure? with
  | none => true
  | some t => t.passed now b.settings.timeout

/-- Asks whether work may be tried. An open circuit that is due becomes half-open by this. Models
`can_execute` of module `circuit_breaker`. -/
def canExecute (now : Time.Instant) (b : Breaker) : Bool × Breaker × List Effect :=
  if b.state = .open then
    if b.recoveryDue now then (true, b.moveTo .halfOpen) else (false, b, [])
  else (true, b, [])

/-- Replaces the callback. Models `on_state_change` of module `circuit_breaker`. -/
def onChange (tag : String) (b : Breaker) : Breaker := { b with callback? := some tag }

/-- Replaces the observer; none is a silent one. Models `set_observer` of module
`circuit_breaker`. -/
def setObserver (o? : Option Observer) (b : Breaker) : Breaker :=
  { b with observer := o?.getD .silent }

/-- Takes notice of a number of failures one after the other. -/
def recordFailures (now : Time.Instant) : Nat → Breaker → Breaker × List Effect
  | 0, b => (b, [])
  | n + 1, b =>
    let (b, es) := b.recordFailure now
    let (b, fs) := recordFailures now n b
    (b, es ++ fs)

end Breaker

end Mishap
