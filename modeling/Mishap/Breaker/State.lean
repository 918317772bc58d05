/-!
# States of a circuit

`faultline` specification §4, module `circuit_breaker`.
-/

namespace Mishap

/-- Whether a circuit lets work through. Models `CircuitState` of module `circuit_breaker`. -/
inductive CircuitState where
  /-- Work passes. -/
  | closed
  /-- Work is refused until the timeout has passed. -/
  | open
  /-- Work passes to try whether the resource has recovered. -/
  | halfOpen
  deriving DecidableEq, Repr

namespace CircuitState

/-- Every state, in declared order. -/
def all : List CircuitState := [closed, .open, halfOpen]

/-- The name in messages. -/
def display : CircuitState → String
  | closed => "closed"
  | .open => "open"
  | halfOpen => "half-open"

/-- The written name. -/
def name : CircuitState → String
  | closed => "closed"
  | .open => "open"
  | halfOpen => "half_open"

/-- The name in diagnostics. -/
def debugName : CircuitState → String
  | closed => "Closed"
  | .open => "Open"
  | halfOpen => "HalfOpen"

/-- The state of a written name. -/
def ofName? (s : String) : Option CircuitState := all.find? (·.name == s)

end CircuitState

end Mishap
