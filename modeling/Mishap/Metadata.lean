import Mishap.Context

/-!
# Metadata of errors

A metadata entry is free JSON data or one of three typed records: a context, retry bookkeeping or a
recovery suggestion. Keys and kinds are independent; the well-known keys are only where the
typed records are looked for.
`faultline` specification §4, modules `metadata` and `retry`.
-/

namespace Mishap

/-- When an error is worth another attempt, as a rule on the error as it is then. Models the
predicates of module `retry`. -/
inductive RetryRule where
  | always
  | never
  /-- Unless the error is a failure of validation. -/
  | unlessValidation
  | textContains (part : String)
  | messageIs (message : String)
  | hasMetadata (key : String)
  deriving DecidableEq, Repr

/-- The bookkeeping of attempts. Models `RetryInfo` of module `retry`. -/
structure RetryInfo where
  maxAttempts : Nat
  currentAttempt : Nat
  delay : Time.Span
  lastAttempt : Time.Instant
  rule : RetryRule
  deriving DecidableEq, Repr

namespace RetryInfo

/-- The largest number of attempts that is counted. -/
def limit : Nat := 0xFFFFFFFF

/-- Bookkeeping before the first attempt. Models `new` of module `retry`. -/
def new (maxAttempts : Nat) (delay : Time.Span) (now : Time.Instant) : RetryInfo :=
  { maxAttempts, currentAttempt := 0, delay, lastAttempt := now, rule := .unlessValidation }

/-- Attempts remain. Models `has_attempts_left` of module `retry`. -/
def hasAttemptsLeft (r : RetryInfo) : Bool := r.currentAttempt < r.maxAttempts

/-- Counts one more attempt; the count stays at its limit. Models what `increment_retry` of module
`retry` does to it. -/
def increment (now : Time.Instant) (r : RetryInfo) : RetryInfo :=
  { r with currentAttempt := min (r.currentAttempt + 1) limit, lastAttempt := now }

/-- The exported form. -/
def toJson (r : RetryInfo) : Json :=
  .object [("max_attempts", .nat r.maxAttempts), ("current_attempt", .nat r.currentAttempt),
    ("delay", .string r.delay.text), ("last_attempt", .string (Time.Rfc3339.write r.lastAttempt))]

end RetryInfo

/-- A metadata value. Models `MetadataValue` of module `metadata`. -/
inductive Metadata where
  | data (v : Json)
  | context (c : Context)
  | retry (r : RetryInfo)
  | recovery (r : Recovery)

namespace Metadata

/-- Where the context of an error is kept. -/
def contextKey : String := "error_context"

/-- Where the bookkeeping of attempts is kept. -/
def retryKey : String := "retry_info"

/-- Where the recovery suggestion is kept. -/
def recoveryKey : String := "recovery_suggestion"

/-- The exported form; among free data a record has its fields in order of their names. Models
`to_json` of module `metadata`. -/
def toJson : Metadata → Json
  | data v => v
  | context c => c.toJson.byName
  | retry r => r.toJson.byName
  | recovery r => r.toJson.byName

/-- The name of the kind. -/
def kind : Metadata → String
  | data _ => "json"
  | context _ => "context"
  | retry _ => "retry"
  | recovery _ => "recovery"

/-- Free data. -/
def asData? : Metadata → Option Json
  | data v => some v
  | _ => none

/-- Free data that is a text. -/
def asText? (m : Metadata) : Option String := m.asData?.bind Json.asString?

/-- Free data that is an integer of the signed 64-bit range. -/
def asInt? (m : Metadata) : Option Int := m.asData?.bind Json.asInt64?

/-- A typed context. -/
def asContext? : Metadata → Option Context
  | context c => some c
  | _ => none

/-- Typed bookkeeping. -/
def asRetryInfo? : Metadata → Option RetryInfo
  | retry r => some r
  | _ => none

/-- A typed recovery suggestion. -/
def asRecovery? : Metadata → Option Recovery
  | recovery r => some r
  | _ => none

/-- Free data that equals a value. Models the comparison with a JSON value of module `metadata`. -/
def equals (m : Metadata) (v : Json) : Bool := m.asData?.any (·.same v)

end Metadata

end Mishap
