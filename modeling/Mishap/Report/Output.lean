import Mishap.Store.Errors
import Mishap.Time.Pattern

/-!
# Exporting a decorated error

A report shows one decorated error with its causes: message, kind, severity, stack, and what its
metadata holds. A cause that is not itself a decorated error is shown by its text alone. Options
choose the form of the time and whether stacks are shown; they touch nothing else.
`faultline` specification §4, module `format`.
-/

namespace Mishap

/-- The exported form of an error. Models `ErrorOutput` of module `format`. -/
structure Report where
  message : String
  timestamp : String
  errorType : String
  severity : String
  stack : String
  cause? : Option Report
  context : Dictionary Json
  metadata : Dictionary Json
  recovery? : Option Recovery

/-- How errors are exported. Models `FormatOptions` of module `format`. -/
structure ReportOptions where
  /-- The pattern for the time; RFC 3339 if there is none. -/
  pattern? : Option String
  includeStack : Bool
  deriving DecidableEq, Repr

namespace ReportOptions

/-- RFC 3339 times and stacks. -/
instance : Inhabited ReportOptions := ⟨⟨none, true⟩⟩

/-- Sets the pattern; an empty one counts as none. Models `with_timestamp_format` of module
`format`. -/
def withPattern (pattern : String) (o : ReportOptions) : ReportOptions :=
  { o with pattern? := if pattern = "" then none else some pattern }

/-- The text of the time of a report. A pattern that is not understood gives the RFC 3339 form.
Models `timestamp` of module `format`. -/
def timestamp (o : ReportOptions) (now : Time.Instant) : String :=
  match o.pattern?.bind fun p => Time.Pattern.write? p now with
  | some text => text
  | none => Time.Rfc3339.writeSeconds now

end ReportOptions

namespace Report

/-- The kind of an error without a context. -/
def defaultType : String := (default : ErrorType).name

/-- The severity of an error without a context. -/
def defaultSeverity : String := (default : Severity).name

/-- The report of a cause of which only the text is shown. Models `plain` of module `format`. -/
def plain (message : String) : Report :=
  { message, timestamp := "", errorType := defaultType, severity := defaultSeverity, stack := "",
    cause? := none, context := [], metadata := [], recovery? := none }

/-- The report of one decorated error, given the report of its cause. Models one level of
`to_output` of module `format`. -/
def ofDecorated (d : Decorated) (o : ReportOptions) (now : Time.Instant) (cause? : Option Report) :
    Report :=
  let context? := d.context?
  let rest :=
    Dictionary.erase Metadata.recoveryKey (Dictionary.erase Metadata.contextKey d.metadata)
  { message := d.message
    timestamp := o.timestamp now
    errorType := (context?.map (·.errorType.name)).getD defaultType
    severity := (context?.map (·.severity.name)).getD defaultSeverity
    stack := if o.includeStack then d.trace.render else ""
    cause?
    context := (context?.map Context.wellKnown).getD []
    metadata := Dictionary.mapValues Metadata.toJson rest
    recovery? := d.recovery? }

/-- The report of the error at a place, with causes to a depth. -/
def ofErrorFrom (s : Store) (o : ReportOptions) (now : Time.Instant) : Nat → Ref → Report
  | 0, r => plain (s.text r)
  | fuel + 1, r =>
    match s.decorated? r with
    | none => plain (s.text r)
    | some d => ofDecorated d o now (d.cause?.map (ofErrorFrom s o now fuel))

/-- The report of an error. A cause is older than the error, so the place bounds the depth. -/
def ofError (s : Store) (o : ReportOptions) (now : Time.Instant) (r : Ref) : Report :=
  ofErrorFrom s o now (r + 1) r

/-- A member that is there only if its value is. -/
def optionalMember (name : String) (v? : Option Json) : List (String × Json) :=
  v?.toList.map fun v => (name, v)

/-- A member that is there only if its dictionary has entries. -/
def dictionaryMember (name : String) (d : Dictionary Json) : List (String × Json) :=
  if d.isEmpty then [] else [(name, .object d)]

/-- The exported form. -/
def toJson : Report → Json
  | ⟨message, timestamp, errorType, severity, stack, cause?, context, metadata, recovery?⟩ =>
    .object ([("message", .string message), ("timestamp", .string timestamp),
        ("type", .string errorType), ("severity", .string severity), ("stack", .string stack)] ++
      (match cause? with
        | some c => [("cause", toJson c)]
        | none => []) ++
      dictionaryMember "context" context ++ dictionaryMember "metadata" metadata ++
      optionalMember "recovery" (recovery?.map Recovery.toJson))

end Report

end Mishap
