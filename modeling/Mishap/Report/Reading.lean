import Mishap.Report.Entry
import Mishap.Report.Output
import Mishap.Schema.FromNode
import Mishap.Schema.FromText
import Mishap.Schema.FromValue
import Mishap.Yaml.Writer

/-!
# Reading exports back

The exported forms are written as JSON or YAML text and read back from it. Reading goes through the
canonical value of the record's shape, which is the exported form itself.
`faultline` specification §4, modules `serialize` and `format`.
-/

namespace Mishap

/-- A text is not the exported form that was expected. -/
inductive ReadError where
  /-- The JSON text has a fault. -/
  | json (f : Json.Fault) (text : String)
  | yaml

/-- The formats of exports. -/
inductive Format where
  | json
  | yaml
  deriving DecidableEq, Repr

namespace Format

/-- Writes an exported form. -/
def write (f : Format) (v : Json) : String :=
  match f with
  | json => v.pretty
  | yaml => Yaml.write v

/-- Reads the canonical value of a shape. -/
def read (f : Format) (shape : Schema.Shape) (text : String) : Except ReadError Json :=
  match f with
  | json =>
    match Schema.fromText shape text with
    | .ok v => .ok v
    | .error e => .error (.json e text)
  | yaml =>
    match Schema.fromYaml? shape text with
    | some v => .ok v
    | none => .error .yaml

end Format

/-- The wording of a fault in JSON. -/
def jsonErrorText (message : String) : String := "JSON error: " ++ message

/-- The text member of a name. -/
def textMember? (name : String) (ms : List (String × Json)) : Option String :=
  (Dictionary.get? name ms).bind Json.asString?

/-- The members of the object of a name; none if there is no such object. -/
def membersOf (name : String) (ms : List (String × Json)) : Dictionary Json :=
  match Dictionary.get? name ms with
  | some (.object d) => d
  | _ => []

namespace Report

/-- Reads an exported form with causes to a depth. -/
def ofJsonFrom? : Nat → Json → Option Report
  | fuel + 1, .object ms => do
    let message ← textMember? "message" ms
    let timestamp ← textMember? "timestamp" ms
    let errorType ← textMember? "type" ms
    let severity ← textMember? "severity" ms
    let stack ← textMember? "stack" ms
    let cause? ← match Dictionary.get? "cause" ms with
      | none => some none
      | some v => (ofJsonFrom? fuel v).map some
    let recovery? ← match Dictionary.get? "recovery" ms with
      | none => some none
      | some v => (Recovery.ofJson? v).map some
    some { message, timestamp, errorType, severity, stack, cause?,
           context := membersOf "context" ms, metadata := membersOf "metadata" ms, recovery? }
  | _, _ => none

/-- Reads an exported form. -/
def ofJson? (v : Json) : Option Report := ofJsonFrom? (Schema.nesting v + 1) v

/-- Writes a report as text. -/
def write (f : Format) (r : Report) : String := f.write r.toJson

/-- Reads a report from text. -/
def read (f : Format) (text : String) : Except ReadError (Option Report) :=
  (f.read (.record .report) text).map ofJson?

end Report

namespace Entry

/-- Reads an exported form with causes to a depth. -/
def ofJsonFrom? : Nat → Json → Option Entry
  | fuel + 1, .object ms => do
    let message ← textMember? "message" ms
    let kind ← (textMember? "type" ms).bind EntryKind.ofName?
    let frames ← match Dictionary.get? "stack_trace" ms with
      | some (.array xs) => xs.mapM Frame.ofJson?
      | _ => some []
    let cause? ← match Dictionary.get? "cause" ms with
      | none => some none
      | some v => (ofJsonFrom? fuel v).map some
    some { message, kind, frames, metadata := membersOf "metadata" ms, cause? }
  | _, _ => none

/-- Reads an exported form. -/
def ofJson? (v : Json) : Option Entry := ofJsonFrom? (Schema.nesting v + 1) v

end Entry

namespace GroupReport

/-- Reads an exported form. -/
def ofJson? (v : Json) : Option GroupReport :=
  match v with
  | .object [("error_count", .number (.int count)), ("timestamp", .string timestamp),
      ("errors", .array errors)] => do
    let entries ← errors.mapM Entry.ofJson?
    some { count := count.toNat, timestamp, entries }
  | _ => none

/-- Writes the export of a group as text. -/
def write (f : Format) (g : GroupReport) : String := f.write g.toJson

/-- Reads the export of a group from text. -/
def read (f : Format) (text : String) : Except ReadError (Option GroupReport) :=
  (f.read (.record .groupReport) text).map ofJson?

/-- Whether the text of an export reads back as the export, or what is wrong with the text. -/
def readsBack (f : Format) (g : GroupReport) : Except ReadError Bool :=
  (f.read (.record .groupReport) (g.write f)).map (·.same g.toJson)

end GroupReport

end Mishap
