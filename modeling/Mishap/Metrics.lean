import Mishap.Effect

/-!
# Metrics

Meters count what observers of their kind are told: errors, changes of circuits, and the last state
of each circuit. The counters have sixty-four bits and start again at zero.
`faultline` specification §4, module `observability`.
-/

namespace Mishap

/-- What a meter has counted. Models `MetricsObserver` of module `observability`. -/
structure Metrics where
  errors : UInt64
  transitions : UInt64
  states : Dictionary CircuitState
  deriving Repr

namespace Metrics

/-- Nothing counted yet. -/
def empty : Metrics := ⟨0, 0, []⟩

/-- Takes one effect into account, as the meter of a name. -/
def absorb (name : String) (m : Metrics) : Effect → Metrics
  | .errorCounted meter => if meter = name then { m with errors := m.errors + 1 } else m
  | .transitionCounted meter circuit after =>
    if meter = name then
      { m with
        transitions := m.transitions + 1
        states := Dictionary.insert circuit after m.states }
    else m
  | _ => m

/-- What the meter of a name has counted of a history of effects. -/
def ofEffects (name : String) (effects : List Effect) : Metrics :=
  effects.foldl (absorb name) empty

/-- The last state of a circuit. Models `circuit_state` of module `observability`. -/
def state? (circuit : String) (m : Metrics) : Option CircuitState :=
  Dictionary.get? circuit m.states

end Metrics

end Mishap
