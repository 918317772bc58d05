import Mishap.Breaker
import Mishap.Outline
import Mishap.Store.Basic

/-!
# Outlines of frames, errors, groups, pools and breakers
-/

namespace Mishap

/-- The outline of a frame. -/
def Frame.outline (f : Frame) : Outline :=
  .record "StackFrame"
    [("function", .text f.function), ("file", .text f.file), ("line", .nat f.line),
     ("pc", .nat f.address)] false

/-- The outline of bookkeeping; its rule is left out. -/
def RetryInfo.outline (r : RetryInfo) : Outline :=
  .record "RetryInfo"
    [("max_attempts", .nat r.maxAttempts), ("current_attempt", .nat r.currentAttempt),
     ("delay", .word r.delay.debugText), ("last_attempt", .word (Time.Rfc3339.write r.lastAttempt))]
    true

/-- The outline of the settings of a breaker. -/
def BreakerSettings.outline (s : BreakerSettings) : Outline :=
  .record "CircuitBreakerConfig"
    [("max_failures", .nat s.maxFailures), ("timeout", .word s.timeout.debugText)] false

/-- The outline of a breaker. -/
def Breaker.outline (b : Breaker) : Outline :=
  .record "CircuitBreaker"
    [("name", .text b.name), ("state", .word b.state.debugName),
     ("failure_count", .nat b.failures), ("config", b.settings.outline)] false

/-- The outline of a pool. -/
def Pool.outline (p : Pool) : Outline :=
  .record "ErrorGroupPool"
    [("config", .record "ErrorGroupPoolConfig"
        [("initial_capacity", .nat p.settings.initialCapacity),
         ("max_idle", .nat p.settings.maxIdle)] false),
     ("idle", .nat p.idle)] false

namespace Store

/-- The outline of a system error over what it carries. -/
def systemOutline (carried : Outline) : Outline :=
  .record "Custom" [("kind", .word "Other"), ("error", carried)] false

/-- The outline of an error to a depth. -/
def outlineFrom (s : Store) : Nat → Ref → Outline
  | 0, _ => .word ""
  | fuel + 1, r =>
    match s.body? r with
    | none => .word ""
    | some (.leaf m) => .wrapper "Leaf" [.text m]
    | some (.system m) => systemOutline (.text m)
    | some (.veiled inner _) => systemOutline (outlineFrom s fuel inner)
    | some (.linked m source) =>
      .wrapper "Node" [.text m, outlineFrom s fuel source]
    | some (.envelope inner) => .wrapper "Newtype" [outlineFrom s fuel inner]
    | some (.decorated d) =>
      .record "DecoratedError"
        [("message", .text d.message), ("cause", .optional (d.cause?.map (outlineFrom s fuel))),
         ("metadata", .list ((Dictionary.keys d.metadata).map .text))] true
    | some (.joined parts) =>
      .record "JoinedError" [("errors", .list (parts.map (outlineFrom s fuel)))] false
    | some (.group g) =>
      .record "ErrorGroup"
        [("errors", .list (g.members.map (outlineFrom s fuel))),
         ("pooled", .bool g.pool?.isSome)] false

/-- The outline of an error. -/
def outline (s : Store) (r : Ref) : Outline := s.outlineFrom s.cells.length r

end Store

end Mishap
