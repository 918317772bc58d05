import Mishap.Store.Chain
import Mishap.Store.Display

/-!
# Decorated errors

A wrapper takes over the stack, the metadata and the observer of the first decorated error in the
chain of its cause, as they are at that moment; it has no logger. Whatever is added to an error
changes that error alone. An attached logger hears of what is added, and of reports; the observer
hears of reports.
`faultline` specification §4, modules `error` and `retry`.
-/

namespace Mishap.Store

/-- A new decorated error. Its stack is captured where it is made. Models `new` of module
`error`. -/
def fresh (message : String) (frames : List Frame) (s : Store) : Decorated :=
  { message, cause? := none, trace := ⟨s.next, frames⟩, metadata := [], logger? := none,
    observer := .silent }

/-- A new decorated error over a cause. The frames are captured only if there is no decorated error
in the cause's chain. Models `wrap_shared` of module `error`. -/
def freshOver (cause : Ref) (message : String) (frames : List Frame) (s : Store) : Decorated :=
  match (s.find? .decorated cause).bind s.decorated? with
  | some inner =>
    { message, cause? := some cause, trace := inner.trace, metadata := inner.metadata,
      logger? := none, observer := inner.observer }
  | none => { s.fresh message frames with cause? := some cause }

/-- Makes a decorated error, capturing a stack. -/
def decorate (message : String) (frames : List Frame) (s : Store) : Store × Ref :=
  s.add (.decorated (s.fresh message frames))

/-- Makes a decorated error over a cause. -/
def wrap (cause : Ref) (message : String) (frames : List Frame) (s : Store) : Store × Ref :=
  s.add (.decorated (s.freshOver cause message frames))

/-- Changes a decorated error and tells of it. -/
def change (r : Ref) (f : Decorated → Decorated × List Effect) (s : Store) : Store × List Effect :=
  match s.decorated? r with
  | some d =>
    let (d, effects) := f d
    (s.setDecorated r d, effects)
  | none => (s, [])

end Mishap.Store

namespace Mishap.Decorated

/-- The metadata entry of a key. -/
def metadata? (key : String) (d : Decorated) : Option Metadata := Dictionary.get? key d.metadata

/-- The context. -/
def context? (d : Decorated) : Option Context :=
  (d.metadata? Metadata.contextKey).bind Metadata.asContext?

/-- The bookkeeping of attempts. -/
def retryInfo? (d : Decorated) : Option RetryInfo :=
  (d.metadata? Metadata.retryKey).bind Metadata.asRetryInfo?

/-- The recovery suggestion. -/
def recovery? (d : Decorated) : Option Recovery :=
  (d.metadata? Metadata.recoveryKey).bind Metadata.asRecovery?

/-- Something that others notice, and the error as it is at that moment. -/
structure Moment where
  error : Decorated
  effect : Effect

/-- Writes a record to the attached logger. Models the debug records of module `error`. -/
def tell (d : Decorated) (message : String) (fields : List LogField) : List Moment :=
  d.logger?.toList.map fun l => ⟨d, l.log .debug message fields⟩

/-- What can be done to a decorated error. -/
inductive Edit where
  | attachLogger (l : Logger)
  | setObserver (o : Observer)
  | annotate (key : String) (value : Metadata)
  | setContext (c : Context)
  | suggest (r : Recovery)
  | increment (now : Time.Instant)

/-- The error after an edit, and the moments at which others notice the edit. The error is changed
first, then told of. An attempt is counted only if attempts are kept. Models `with_logger`,
`with_observer`, `insert_metadata`, `set_context` and `with_recovery_suggestion` of module `error`
and `increment_retry` of module `retry`. -/
def Edit.perform : Edit → Decorated → Decorated × List Moment
  | attachLogger l, d =>
    let d := { d with logger? := some l }
    (d, d.tell "error created" [("message", .string d.message), ("stack", .string d.trace.render)])
  | setObserver o, d => ({ d with observer := o }, [])
  | annotate key value, d =>
    let d := { d with metadata := Dictionary.insert key value d.metadata }
    (d, d.tell "metadata added"
      [("key", .string key), ("value", value.toJson), ("error", .string d.message)])
  | setContext c, d =>
    let d := { d with metadata := Dictionary.insert Metadata.contextKey (.context c) d.metadata }
    (d, d.tell "error context added"
      [("error_type", .string c.errorType.name), ("severity", .string c.severity.name),
       ("request_id", .string c.requestId), ("component", .string c.component),
       ("error", .string d.message)])
  | suggest r, d =>
    ({ d with metadata := Dictionary.insert Metadata.recoveryKey (.recovery r) d.metadata }, [])
  | increment now, d =>
    match d.retryInfo? with
    | some info =>
      let info := info.increment now
      ({ d with metadata := Dictionary.insert Metadata.retryKey (.retry info) d.metadata }, [])
    | none => (d, [])

/-- The error after an edit, and what the edit lets others notice. -/
def Edit.apply (e : Edit) (d : Decorated) : Decorated × List Effect :=
  ((e.perform d).1, (e.perform d).2.map (·.effect))

/-- Attaches a logger, which hears of the creation of the error. -/
def attachLogger (l : Logger) : Decorated → Decorated × List Effect := (Edit.attachLogger l).apply

/-- Gives the error another observer. -/
def setObserver (o : Observer) : Decorated → Decorated × List Effect := (Edit.setObserver o).apply

/-- Writes a metadata entry. -/
def annotate (key : String) (value : Metadata) : Decorated → Decorated × List Effect :=
  (Edit.annotate key value).apply

/-- Gives the error a context. -/
def setContext (c : Context) : Decorated → Decorated × List Effect := (Edit.setContext c).apply

/-- Gives the error a recovery suggestion. -/
def suggest (r : Recovery) : Decorated → Decorated × List Effect := (Edit.suggest r).apply

/-- Gives the error bookkeeping of attempts. Models `with_retry_info` of module `retry`. -/
def setRetry (r : RetryInfo) : Decorated → Decorated × List Effect :=
  annotate Metadata.retryKey (.retry r)

/-- Counts one more attempt, if attempts are kept. -/
def increment (now : Time.Instant) : Decorated → Decorated × List Effect :=
  (Edit.increment now).apply

/-- The rule holds of the error, whose text is given. Models `should_retry`, and
`default_should_retry` of module `retry`. -/
def satisfies (d : Decorated) (text : String) : RetryRule → Bool
  | .always => true
  | .never => false
  | .unlessValidation => d.context?.all (·.errorType != .validation)
  | .textContains part => text.contains part
  | .messageIs message => d.message == message
  | .hasMetadata key => (d.metadata? key).isSome

/-- Another attempt is allowed: attempts are kept, some are left, and their rule holds. Models
`can_retry` of module `retry`. -/
def canRetry (d : Decorated) (text : String) : Bool :=
  d.retryInfo?.any fun info => info.hasAttemptsLeft && d.satisfies text info.rule

/-- The fields of a report, given the text of the cause. Models the fields of `log` of module
`error`. -/
def reportFields (d : Decorated) (causeText? : Option String) : List LogField :=
  [("error", .string d.message)] ++ (causeText?.toList.map fun t => ("cause", .string t)) ++
    [("stack", .string d.trace.render)] ++ (d.metadata.map fun e => (e.1, e.2.toJson))

end Mishap.Decorated

namespace Mishap.Store

/-- Reports an error: the observer hears its text first, then the logger its parts. Models `log` of
module `error`. -/
def report (r : Ref) (s : Store) : List Effect :=
  match s.decorated? r with
  | some d =>
    d.observer.recordError (s.text r) ++
      d.logger?.toList.map fun l =>
        l.log .error "error occurred" (d.reportFields (d.cause?.map s.text))
  | none => []

end Mishap.Store
