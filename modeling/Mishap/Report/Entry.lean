import Mishap.Report.Kind
import Mishap.Store.Errors

/-!
# Exporting any error

An entry shows an error of any kind. Its message is the error's own text; stack, metadata and cause
come from the first decorated error in its chain. The export of a group has an entry for each
member.
`faultline` specification §4, module `serialize`.
-/

namespace Mishap

/-- The exported form of an error of any kind. Models `SerializableError` of module `serialize`. -/
structure Entry where
  message : String
  kind : EntryKind
  frames : List Frame
  metadata : Dictionary Json
  cause? : Option Entry

namespace Entry

/-- The entry of the error at a place, with causes to a depth. Models `from_error` of module
`serialize`. -/
def ofErrorFrom (s : Store) : Nat → Ref → Entry
  | 0, r => ⟨s.text r, .standard, [], [], none⟩
  | fuel + 1, r =>
    match (s.find? .decorated r).bind s.decorated? with
    | none =>
      { message := s.text r, kind := .standard, frames := [], metadata := [],
        cause? := (s.source? r).map (ofErrorFrom s fuel) }
    | some d =>
      { message := s.text r, kind := .decorated, frames := d.trace.frames,
        metadata := Dictionary.mapValues Metadata.toJson d.metadata,
        cause? := d.cause?.map (ofErrorFrom s fuel) }

/-- The entry of an error. What is shown as its cause is older than the error, so the place bounds
the depth. -/
def ofError (s : Store) (r : Ref) : Entry := ofErrorFrom s (r + 1) r

/-- The exported form. -/
def toJson : Entry → Json
  | ⟨message, kind, frames, metadata, cause?⟩ =>
    .object ([("message", .string message), ("type", .string kind.name)] ++
      (if frames.isEmpty then [] else [("stack_trace", .array (frames.map Frame.toJson))]) ++
      (if metadata.isEmpty then [] else [("metadata", .object metadata)]) ++
      (match cause? with
        | some c => [("cause", toJson c)]
        | none => []))

end Entry

/-- The exported form of a group. Models `ErrorGroupSerialization` of module `serialize`. -/
structure GroupReport where
  count : Nat
  timestamp : String
  entries : List Entry

namespace GroupReport

/-- The export of the group at a place. Models `to_serialization` of module `serialize`. -/
def ofGroup (s : Store) (now : Time.Instant) (members : List Ref) : GroupReport :=
  let entries := members.map (Entry.ofError s)
  { count := entries.length, timestamp := Time.Rfc3339.writeSeconds now, entries }

/-- The exported form. -/
def toJson (g : GroupReport) : Json :=
  .object [("error_count", .nat g.count), ("timestamp", .string g.timestamp),
    ("errors", .array (g.entries.map Entry.toJson))]

end GroupReport

end Mishap
