import Mishap.Breaker.State
import Mishap.Context
import Mishap.Report.Kind
import Mishap.Schema.Mismatch

/-!
# Shapes of data

A `Shape` describes the values that one kind of datum may have when it is written as JSON or YAML:
its primitive kinds, collections of them, closed choices, and records with named fields. Readers
of every format are driven by shapes and agree on one result: the canonical value, whose records
have their fields in declared order, without the fields that are hidden while they hold their
default.
-/

namespace Mishap.Schema

/-- The widths of natural numbers. -/
inductive Width where
  | word
  | long
  | size
  deriving DecidableEq, Repr

namespace Width

/-- The first number that does not fit. -/
def limit : Width → Nat
  | word => 0x100000000
  | long | size => 0x10000000000000000

/-- The name of the width in messages. -/
def wanted : Width → String
  | word => "u32"
  | long => "u64"
  | size => "usize"

end Width

/-- The closed choices among names. -/
inductive Choice where
  | errorType
  | severity
  | circuitState
  | entryKind
  deriving DecidableEq, Repr

/-- The names of a choice in declared order. -/
def Choice.names : Choice → List String
  | errorType => ErrorType.all.map ErrorType.name
  | severity => Severity.all.map Severity.name
  | circuitState => CircuitState.all.map CircuitState.name
  | entryKind => EntryKind.all.map EntryKind.name

/-- The records. -/
inductive Record where
  | report
  | recovery
  | context
  | frame
  | entry
  | groupReport
  | breakerSettings
  | poolSettings
  | logSettings
  deriving DecidableEq, Repr

/-- The kinds of data. -/
inductive Shape where
  | text
  | natural (width : Width)
  | flag
  | anything
  | span
  | instant
  | choice (c : Choice)
  | record (r : Record)
  | optional (of : Shape)
  | list (of : Shape)
  | dictionary (of : Shape)
  deriving DecidableEq, Repr

/-- A field of a record. A field without a default is required; a hidden one is not written while
it holds its default. -/
structure RecordField where
  name : String
  shape : Shape
  default? : Option Json
  hidden : Bool

namespace RecordField

/-- A field that has to be there. -/
def required (name : String) (shape : Shape) : RecordField := ⟨name, shape, none, false⟩

/-- A field that is filled with a default where it is left out. -/
def defaulted (name : String) (shape : Shape) (value : Json) : RecordField :=
  ⟨name, shape, some value, false⟩

/-- A field that is left out while it holds its default. -/
def elided (name : String) (shape : Shape) (value : Json) : RecordField :=
  ⟨name, shape, some value, true⟩

end RecordField

namespace Record

/-- The name of the record in messages. -/
def title : Record → String
  | report => "ErrorOutput"
  | recovery => "RecoverySuggestion"
  | context => "ErrorContext"
  | frame => "StackFrame"
  | entry => "SerializableError"
  | groupReport => "ErrorGroupSerialization"
  | breakerSettings => "CircuitBreakerConfig"
  | poolSettings => "ErrorGroupPoolConfig"
  | logSettings => "LogConfig"

open RecordField Shape in
/-- The fields in declared order. -/
def fields : Record → List RecordField
  | report =>
    [required "message" text, required "timestamp" text, required "type" text,
     required "severity" text, required "stack" text,
     elided "cause" (optional (record report)) .null,
     elided "context" (dictionary anything) (.object []),
     elided "metadata" (dictionary anything) (.object []),
     elided "recovery" (optional (record recovery)) .null]
  | recovery =>
    [required "message" text, defaulted "actions" (list text) (.array []),
     defaulted "documentation" text (.string "")]
  | context =>
    [required "timestamp" instant, required "type" (choice .errorType),
     required "severity" (choice .severity), defaulted "operation" text (.string ""),
     defaulted "component" text (.string ""), defaulted "request_id" text (.string ""),
     defaulted "user" text (.string ""), defaulted "environment" text (.string ""),
     defaulted "version" text (.string ""), required "file" text,
     required "line" (natural .word), defaulted "data" (dictionary anything) (.object [])]
  | frame =>
    [required "function" text, required "file" text, required "line" (natural .word),
     required "pc" (natural .size)]
  | entry =>
    [required "message" text, required "type" (choice .entryKind),
     elided "stack_trace" (list (record frame)) (.array []),
     elided "metadata" (dictionary anything) (.object []),
     elided "cause" (optional (record entry)) .null]
  | groupReport =>
    [required "error_count" (natural .size), required "timestamp" text,
     required "errors" (list (record entry))]
  | breakerSettings => [required "max_failures" (natural .word), required "timeout" span]
  | poolSettings =>
    [defaulted "initial_capacity" (natural .size) (.int 4),
     defaulted "max_idle" (natural .size) (.int 64)]
  | logSettings =>
    [defaulted "level" text (.string "info"), defaulted "components" (dictionary text) (.object []),
     defaulted "json" flag (.bool false)]

/-- The record in messages. -/
def wanted (r : Record) : String := "struct " ++ r.title

/-- The record and its size in messages about lists of its fields. -/
def wantedSize (r : Record) : String :=
  r.wanted ++ " with " ++ String.ofList (Text.decimal r.fields.length) ++
    (if r.fields.length = 1 then " element" else " elements")

/-- The field of a name. -/
def field? (r : Record) (name : String) : Option RecordField := r.fields.find? (·.name == name)

/-- The canonical value of a record from what was read for each field, or the first required field
that is missing. -/
def assemble (fields : List RecordField) (found : Dictionary Json) :
    Except Mismatch (List (String × Json)) :=
  match fields with
  | [] => .ok []
  | f :: rest =>
    match Dictionary.get? f.name found, f.default? with
    | none, none => .error (.missingField f.name)
    | none, some d => do
      let members ← assemble rest found
      .ok (if f.hidden then members else (f.name, d) :: members)
    | some v, d => do
      let members ← assemble rest found
      .ok (if f.hidden && (d.any (·.same v)) then members else (f.name, v) :: members)

end Record

/-- What a value is, for a message. -/
def foundIn : Json → Found
  | .null => .null
  | .bool b => .flag b
  | .number (.int i) => .integer i
  | .number (.double x) => .floating x
  | .string s => .text s
  | .array _ => .sequence
  | .object _ => .mapping

/-- A number as a natural of a width. -/
def naturalOf (w : Width) : Number → Except Mismatch Json
  | .int i =>
    if 0 ≤ i ∧ i < w.limit then .ok (.int i) else .error (.wrongValue (.integer i) w.wanted)
  | .double x => .error (.wrongKind (.floating x) w.wanted)

/-- What a span is called in messages. -/
def wantedSpan : String := "a duration"

/-- What a time is called in messages. -/
def wantedInstant : String := "an RFC 3339 formatted date and time string"

/-- A text as the canonical text of a span. -/
def spanOf (s : String) : Except Mismatch Json :=
  match Time.Span.read? s with
  | some d => .ok (.string d.text)
  | none => .error (.wrongValue (.text s) wantedSpan)

/-- A text as the canonical text of a time. -/
def instantOf (s : String) : Except Mismatch Json :=
  match Time.Rfc3339.read s with
  | .ok t => .ok (.string (Time.Rfc3339.write t))
  | .error e => .error (.badTime e.message)

/-- A text as one of the names of a choice. -/
def choiceOf (c : Choice) (s : String) : Except Mismatch Json :=
  if s ∈ c.names then .ok (.string s) else .error (.unknownChoice s c.names)

end Mishap.Schema
