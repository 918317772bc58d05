import Mishap.Proofs.Store.Grounded

/-!
# Reports in the event stream

In the event of a report an error is shown as one object: its message, its stack and the text of its
cause under names of their own, and its metadata under their keys. A metadata entry takes the place
of what it shares a name with (`not_all_streamed`). Nothing else is lost, and nothing is added
(`streamed_of_possible`).
-/

namespace Mishap

namespace Decorated

/-- The fields of a report that are no metadata. -/
def ownFields (d : Decorated) (causeText? : Option String) : List LogField :=
  [("error", .string d.message)] ++ (causeText?.toList.map fun t => ("cause", .string t)) ++
    [("stack", .string d.trace.render)]

private theorem mem_keys_ownFields {d : Decorated} {causeText? : Option String} {key : String} :
    key ∈ (d.ownFields causeText?).map (·.1) ↔
      key = "error" ∨ key = "stack" ∨ key = "cause" ∧ causeText?.isSome := by
  cases causeText? with
  | none => simp [ownFields]
  | some t => simp [ownFields, or_comm]

private theorem nodup_ownFields (d : Decorated) (causeText? : Option String) :
    ((d.ownFields causeText?).map (·.1)).Nodup := by
  cases causeText? with
  | none => exact (by decide : ["error", "stack"].Nodup)
  | some t => exact (by decide : ["error", "cause", "stack"].Nodup)

/-- In the object of a report stands under each key what the metadata has there, else what the error
shows of itself. -/
theorem get?_reportFields {d : Decorated} (h : d.metadata.Ascending) (causeText? : Option String)
    (key : String) :
    Dictionary.get? key (Dictionary.ofEntries (d.reportFields causeText?)) =
      ((d.metadata? key).map Metadata.toJson).or
        (Dictionary.get? key (d.ownFields causeText?)) := by
  have hwritten : Dictionary.ofEntries (d.reportFields causeText?) =
      Dictionary.insertAll (Dictionary.mapValues Metadata.toJson d.metadata)
        (Dictionary.ofEntries (d.ownFields causeText?)) := List.foldl_append
  have hnodup := (h.mapValues Metadata.toJson).nodup
  rw [hwritten, Dictionary.get?_insertAll hnodup, Dictionary.get?_mapValues,
    Dictionary.get?_ofEntries (d.nodup_ownFields causeText?)]
  rfl

end Decorated

namespace Store

variable {h : History} {r : Ref} {d : Decorated}

/-- What the event of a report shows of an error. -/
def streamed (s : Store) (d : Decorated) : Dictionary Json :=
  Dictionary.ofEntries (d.reportFields (d.cause?.map s.text))

/-- What an error shows of itself is there, where the metadata has no entry of the name. -/
theorem get?_streamed_of_none {s : Store} (ha : d.metadata.Ascending) {name : String} {v : Json}
    (hnone : d.metadata? name = none)
    (hfield : (name, v) ∈ d.ownFields (d.cause?.map s.text)) :
    Dictionary.get? name (s.streamed d) = some v := by
  rw [streamed, Decorated.get?_reportFields ha, hnone, Option.map_none, Option.none_or]
  exact Dictionary.get?_of_mem (d.nodup_ownFields _) hfield

/-- The names in the object are those of the metadata and of what an error shows of itself. -/
theorem mem_keys_streamed {s : Store} (ha : d.metadata.Ascending) {key : String} :
    key ∈ (s.streamed d).map (·.1) ↔
      (d.metadata? key).isSome ∨ key ∈ (d.ownFields (d.cause?.map s.text)).map (·.1) := by
  have hget := Decorated.get?_reportFields ha (d.cause?.map s.text) key
  rw [← not_iff_not, not_or, ← Dictionary.get?_eq_none_iff, ← Dictionary.get?_eq_none_iff,
    streamed, hget]
  cases d.metadata? key with
  | none => simp
  | some m => simp

/-- How the event stream shows a report of an error that it is the logger of. -/
structure Streamed (h : History) (r : Ref) (d : Decorated) : Prop where
  /-- The observer is told first. Then there is one event, with the text of one object. -/
  report : ((Action.report r).apply (after h)).2 =
    d.observer.recordError ((after h).text r) ++
      [.event { level := .error, target := Logger.target, message := "error occurred",
                fields := [("fields", .text (Json.object ((after h).streamed d)).compact)] }]
  /-- In the object no name stands twice. -/
  distinct : (((after h).streamed d).map (·.1)).Nodup
  /-- Each metadata entry is there, whatever its key. -/
  metadata : ∀ key m, d.metadata? key = some m →
    Dictionary.get? key ((after h).streamed d) = some m.toJson
  /-- Where the metadata has no entry of the name, the error's own message is there, -/
  message : d.metadata? "error" = none →
    Dictionary.get? "error" ((after h).streamed d) = some (.string d.message)
  /-- and its stack, -/
  stack : d.metadata? "stack" = none →
    Dictionary.get? "stack" ((after h).streamed d) = some (.string d.trace.render)
  /-- and the text of its cause, which exists if no group contains itself. -/
  cause : d.metadata? "cause" = none → ∀ c, d.cause? = some c → ∀ t, (after h).text? c = some t →
    Dictionary.get? "cause" ((after h).streamed d) = some (.string t)
  told : (after h).Grounded → ∀ c, d.cause? = some c → ((after h).text? c).isSome
  /-- It has the names of the metadata and these, the last one only if there is a cause. -/
  names : ∀ key, key ∈ ((after h).streamed d).map (·.1) ↔
    (d.metadata? key).isSome ∨ key = "error" ∨ key = "stack" ∨ key = "cause" ∧ d.cause?.isSome

/-- In every world an event of a report has all metadata, and the parts of the error where no
metadata stands in their place. -/
theorem streamed_of_possible (hp : Possible h) (hd : (after h).decorated? r = some d)
    (hl : d.logger? = some .stream) : Streamed h r d := by
  have ha := ascending_metadata hp hd
  constructor
  case report =>
    rw [Action.apply, Store.report, hd]
    show _ ++ d.logger?.toList.map _ = _
    rw [hl]
    rfl
  case distinct => exact (Dictionary.ascending_ofEntries _).nodup
  case metadata =>
    intro key m hm
    rw [streamed, Decorated.get?_reportFields ha, hm, Option.map_some, Option.some_or]
  case message => exact fun hnone => get?_streamed_of_none ha hnone (by simp [Decorated.ownFields])
  case stack => exact fun hnone => get?_streamed_of_none ha hnone (by simp [Decorated.ownFields])
  case cause =>
    intro hnone c hc t ht
    have htext : (after h).text c = t := by rw [text, ht, Option.getD_some]
    exact get?_streamed_of_none ha hnone (by simp [Decorated.ownFields, hc, htext])
  case told =>
    intro hg c hc
    rw [text?_of_cause hp hg hd hc]
    rfl
  case names =>
    intro key
    rw [mem_keys_streamed ha, Decorated.mem_keys_ownFields, Option.isSome_map]

/-- An error over a cause is given metadata, under the name of its stack too, and the event stream
as its logger. -/
def streaming : History :=
  [.edit 1 (.annotate "peer" (.data (.string "10.0.0.1"))),
    .edit 1 (.annotate "stack" (.data (.int 5))), .edit 1 (.attachLogger .stream),
    .wrap 0 "send" [] 0, .leaf "socket closed" 0]

/-- Metadata in the place of a part of the error. -/
theorem streamed_streaming :
    Possible streaming ∧ ∃ d, (after streaming).decorated? 1 = some d ∧
      d.logger? = some .stream ∧ Streamed streaming 1 d :=
  ⟨by decide, _, rfl, rfl, streamed_of_possible (by decide) rfl rfl⟩

example : ((after streaming).decorated? 1).map (after streaming).streamed =
    some [("cause", .string "socket closed"), ("error", .string "send"),
      ("peer", .string "10.0.0.1"), ("stack", .int 5)] := by
  rfl

/-- An error is given metadata under the name of its message. -/
def overshadowed : History :=
  [.edit 0 (.annotate "error" (.data (.int 5))), .edit 0 (.attachLogger .stream),
    .decorate "boom" [] 0]

/-- Not everything that an error shows of itself is always there beside its metadata. -/
theorem not_all_streamed :
    ¬ ∀ h r d, Possible h → (after h).decorated? r = some d → d.logger? = some .stream →
      Dictionary.get? "error" ((after h).streamed d) = some (.string d.message) ∧
        Dictionary.get? "stack" ((after h).streamed d) = some (.string d.trace.render) ∧
        (∀ c t, d.cause? = some c → (after h).text? c = some t →
          Dictionary.get? "cause" ((after h).streamed d) = some (.string t)) ∧
        (d.cause? = none → Dictionary.get? "cause" ((after h).streamed d) =
          (d.metadata? "cause").map Metadata.toJson) ∧
        ∀ key m, d.metadata? key = some m →
          Dictionary.get? key ((after h).streamed d) = some m.toJson := by
  intro hall
  obtain ⟨hmessage, -, -, -, hmetadata⟩ := hall overshadowed 0 _ (by decide) rfl rfl
  -- The metadata has an entry of this name, and no number is a text.
  cases hmessage.symm.trans (hmetadata "error" (.data (.int 5)) rfl)

end Store

end Mishap
