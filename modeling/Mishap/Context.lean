import Mishap.Json.Basic
import Mishap.Time.Rfc3339

/-!
# Contexts of errors

What kind of failure happened, how grave it is, where and during what it happened, and how to
recover from it.
`faultline` specification §4, module `context`.
-/

namespace Mishap

/-- The kinds of failure. Models `ErrorType` of module `context`. -/
inductive ErrorType where
  | unknown
  | validation
  | notFound
  | permission
  | database
  | network
  | configuration
  | internal
  | external
  deriving DecidableEq, Repr, Inhabited

namespace ErrorType

/-- Every kind, in declared order. -/
def all : List ErrorType :=
  [unknown, validation, notFound, permission, database, network, configuration, internal, external]

/-- The written name. -/
def name : ErrorType → String
  | unknown => "unknown"
  | validation => "validation"
  | notFound => "not_found"
  | permission => "permission"
  | database => "database"
  | network => "network"
  | configuration => "configuration"
  | internal => "internal"
  | external => "external"

/-- The name in diagnostics. -/
def debugName : ErrorType → String
  | unknown => "Unknown"
  | validation => "Validation"
  | notFound => "NotFound"
  | permission => "Permission"
  | database => "Database"
  | network => "Network"
  | configuration => "Configuration"
  | internal => "Internal"
  | external => "External"

/-- The kind of a written name. -/
def ofName? (s : String) : Option ErrorType := all.find? (·.name == s)

end ErrorType

/-- How grave a failure is. Models `Severity` of module `context`. -/
inductive Severity where
  | info
  | warning
  | error
  | critical
  deriving DecidableEq, Repr

namespace Severity

/-- Every severity, from the lightest on. -/
def all : List Severity := [info, warning, error, critical]

/-- The place in ascending order. -/
def rank : Severity → Nat
  | info => 0
  | warning => 1
  | error => 2
  | critical => 3

/-- The written name. -/
def name : Severity → String
  | info => "info"
  | warning => "warning"
  | error => "error"
  | critical => "critical"

/-- The name in diagnostics. -/
def debugName : Severity → String
  | info => "Info"
  | warning => "Warning"
  | error => "Error"
  | critical => "Critical"

/-- The severity of a written name. -/
def ofName? (s : String) : Option Severity := all.find? (·.name == s)

/-- The order of two severities. -/
def order (a b : Severity) : Ordering := compare a.rank b.rank

/-- The graver of two severities. -/
def graver (a b : Severity) : Severity := if b.rank < a.rank then a else b

/-- The severity of a failure of which none is told. -/
instance : Inhabited Severity := ⟨error⟩

end Severity

/-- How to recover from an error. Models `RecoverySuggestion` of module `context`. -/
structure Recovery where
  message : String
  actions : List String
  documentation : String
  deriving DecidableEq, Repr, Inhabited

namespace Recovery

/-- The exported form. -/
def toJson (r : Recovery) : Json :=
  .object [("message", .string r.message), ("actions", .array (r.actions.map .string)),
    ("documentation", .string r.documentation)]

/-- Reads the exported form back. -/
def ofJson? (v : Json) : Option Recovery :=
  match v with
  | .object [("message", .string message), ("actions", .array actions),
      ("documentation", .string documentation)] => do
    let actions ← actions.mapM Json.asString?
    some { message, actions, documentation }
  | _ => none

end Recovery

/-- Where, when and during what an error happened. Models `ErrorContext` of module `context`. -/
structure Context where
  timestamp : Time.Instant
  errorType : ErrorType
  severity : Severity
  operation : String
  component : String
  requestId : String
  user : String
  environment : String
  version : String
  file : String
  line : Nat
  data : Dictionary Json

namespace Context

/-- The environment of which nothing is told. -/
def defaultEnvironment : String := "development"

/-- The environment named by a setting; an empty name counts as none. Models `current_environment`
of module `context`. -/
def environmentOf (setting? : Option String) : String :=
  match setting? with
  | some s => if s = "" then defaultEnvironment else s
  | none => defaultEnvironment

/-- A context of which only kind, severity, time, place and environment are known. Models `new` of
module `context`. -/
def new (errorType : ErrorType) (severity : Severity) (timestamp : Time.Instant)
    (environment file : String) (line : Nat) : Context :=
  { timestamp, errorType, severity, operation := "", component := "", requestId := "", user := "",
    environment, version := "", file, line, data := [] }

/-- Adds a datum under a key. Models `with_data` of module `context`. -/
def withData (key : String) (value : Json) (c : Context) : Context :=
  { c with data := Dictionary.insert key value c.data }

/-- One line that names everything but version, time and data. Models the display of `ErrorContext`
of module `context`. -/
def display (c : Context) : String :=
  "[" ++ c.severity.name ++ "] " ++ c.errorType.name ++ " error in " ++ c.file ++ ":" ++
    String.ofList (Text.decimal c.line) ++ " (" ++ c.component ++ ") - " ++ c.operation ++
    " - RequestID: " ++ c.requestId ++ ", User: " ++ c.user

/-- The well-known fields by name. Models `to_map` of module `context`. -/
def wellKnown (c : Context) : Dictionary Json :=
  [("component", .string c.component), ("environment", .string c.environment),
   ("file", .string c.file), ("line", .nat c.line), ("operation", .string c.operation),
   ("request_id", .string c.requestId), ("user", .string c.user)]

/-- The exported form. -/
def toJson (c : Context) : Json :=
  .object [("timestamp", .string (Time.Rfc3339.write c.timestamp)),
    ("type", .string c.errorType.name), ("severity", .string c.severity.name),
    ("operation", .string c.operation), ("component", .string c.component),
    ("request_id", .string c.requestId), ("user", .string c.user),
    ("environment", .string c.environment), ("version", .string c.version),
    ("file", .string c.file), ("line", .nat c.line), ("data", .object c.data)]

/-- Reads the exported form back. -/
def ofJson? (v : Json) : Option Context :=
  match v with
  | .object [("timestamp", .string timestamp), ("type", .string errorType),
      ("severity", .string severity), ("operation", .string operation),
      ("component", .string component), ("request_id", .string requestId), ("user", .string user),
      ("environment", .string environment), ("version", .string version), ("file", .string file),
      ("line", .number (.int line)), ("data", .object data)] => do
    let timestamp ← (Time.Rfc3339.read timestamp).toOption
    let errorType ← ErrorType.ofName? errorType
    let severity ← Severity.ofName? severity
    some { timestamp, errorType, severity, operation, component, requestId, user, environment,
           version, file, line := line.toNat, data }
  | _ => none

end Context

end Mishap
