import Mishap.Proofs.Report.ReadBack
import Mishap.Proofs.Store.Run
import Mishap.Proofs.Time.Rfc3339

/-!
# Contexts and times read back

The text that is written for a context is read as the context, at whatever time it was made, and
the time of a report or of the export of a group as the time without its fraction
(`contexts_readBack`).
-/

namespace Mishap

open Schema (Fits Shows ShowsAll)

namespace Context

/-- The parts of a context are in the ranges of their types. -/
structure Valid (c : Context) : Prop where
  timestamp : c.timestamp.Valid
  line : c.line < 0x100000000
  data : Json.RegularMembers c.data

/-- A context with numbers of their width fits its shape. -/
theorem Valid.fits {c : Context} (h : c.Valid) : Fits (.record .context) c.toJson := by
  have htext : ∀ name d s, Shows (.defaulted name .text d) (some (.string s)) :=
    fun _ _ s => .given (.text s) rfl
  have htime : Schema.instantOf (Time.Rfc3339.write c.timestamp) =
      .ok (.string (Time.Rfc3339.write c.timestamp)) := by
    rw [Schema.instantOf, Time.Rfc3339.read_write h.timestamp]
  have hkind : c.errorType.name ∈ Schema.Choice.errorType.names := by
    cases c.errorType <;> decide
  have hseverity : c.severity.name ∈ Schema.Choice.severity.names := by
    cases c.severity <;> decide
  have hdata : Fits (.dictionary .anything) (.object c.data) :=
    .dictionary h.data.order fun m hm => .anything (h.data.values m hm)
  have hshows : ShowsAll Schema.Record.context.fields
      [some (.string (Time.Rfc3339.write c.timestamp)), some (.string c.errorType.name),
        some (.string c.severity.name), some (.string c.operation), some (.string c.component),
        some (.string c.requestId), some (.string c.user), some (.string c.environment),
        some (.string c.version), some (.string c.file), some (.nat c.line),
        some (.object c.data)] :=
    .cons (.given (.instant htime) rfl) <| .cons (.given (.choice hkind) rfl) <|
      .cons (.given (.choice hseverity) rfl) <| .cons (htext _ _ _) <| .cons (htext _ _ _) <|
        .cons (htext _ _ _) <| .cons (htext _ _ _) <| .cons (htext _ _ _) <|
          .cons (htext _ _ _) <| .cons (.given (.text _) rfl) <|
            .cons (.given (.natural h.line) rfl) <| .cons (.given hdata rfl) .nil
  exact .of_shown hshows

/-- A context is read back from its exported form. -/
theorem Valid.ofJson?_toJson {c : Context} (h : c.Valid) : ofJson? c.toJson = some c := by
  have hkind : ErrorType.ofName? c.errorType.name = some c.errorType := by
    cases c.errorType <;> rfl
  have hseverity : Severity.ofName? c.severity.name = some c.severity := by
    cases c.severity <;> rfl
  simp [toJson, Json.nat, ofJson?, Time.Rfc3339.read_write h.timestamp, Except.toOption, hkind,
    hseverity]

end Context

/-- A text written for a context is read as the context, or it is too deep to be read. The time that
a report without a pattern or the export of a group shows is read as that time without its
fraction. -/
theorem contexts_readBack :
    (∀ c : Context, c.Valid → ∀ text, text = c.toJson.compact ∨ text = c.toJson.pretty →
      ReadsBack text ((Format.json.read (.record .context) text).map Context.ofJson?) c) ∧
    ∀ now : Time.Instant, now.Valid →
      (∀ (s : Store) (o : ReportOptions) (r : Ref) (d : Decorated), s.decorated? r = some d →
        o.pattern? = none →
          Time.Rfc3339.read (Report.ofError s o now r).timestamp = .ok now.whole) ∧
      ∀ (s : Store) (members : List Ref),
        Time.Rfc3339.read (GroupReport.ofGroup s now members).timestamp = .ok now.whole := by
  constructor
  · intro c hc text htext
    exact readsBack_of_spells hc.fits (Json.spells_of_written hc.fits.integral htext)
      hc.ofJson?_toJson
  · intro now hnow
    have hread := Time.Rfc3339.read_writeSeconds hnow
    refine ⟨fun s o r d hd hnone => ?_, fun _ _ => hread⟩
    have hreport : (Report.ofError s o now r).timestamp = o.timestamp now := by
      rw [Report.ofError, Report.ofErrorFrom, hd]
      rfl
    rw [hreport, ReportOptions.timestamp, hnone]
    exact hread

/-- A context of a time, with data. -/
def datedContext (t : Time.Instant) : Context :=
  { Context.new .network .critical t "test" "a.rs" 0xFFFFFFFF with
    data := [("list", .array [.nat 0xFFFFFFFFFFFFFFFF])] }

/-- A microsecond before the end of the latest year. -/
def latestTime : Time.Instant := ⟨8210266876799, 999999000⟩

/-- Half a second after the beginning of the earliest year. -/
def earliestTime : Time.Instant := ⟨-8334601228800, 500000000⟩

private theorem datedContext_valid {t : Time.Instant} (h : t.Valid) : (datedContext t).Valid := by
  refine ⟨h, Nat.lt_succ_self _, List.pairwise_singleton _ _, fun m hm => ?_⟩
  rw [List.mem_singleton.mp hm]
  exact .array fun x hx => List.mem_singleton.mp hx ▸ .int ⟨by decide, by decide⟩

/-- At both ends of the times that a year allows. -/
theorem readBack_latestTime :
    (datedContext latestTime).Valid ∧ earliestTime.Valid ∧
      (Format.json.read (.record .context) (datedContext latestTime).toJson.pretty).map
        Context.ofJson? = .ok (some (datedContext latestTime)) ∧
      Time.Rfc3339.read (GroupReport.ofGroup .empty earliestTime []).timestamp =
        .ok ⟨-8334601228800, 0⟩ ∧
      Time.Rfc3339.read
        (Report.ofError (Store.after [.wrap 0 "outer" [] 0, .leaf "plain" 0]) default earliestTime
          1).timestamp = .ok ⟨-8334601228800, 0⟩ := by
  have hlatest : (datedContext latestTime).Valid := datedContext_valid ⟨by decide, by decide⟩
  have hearliest : earliestTime.Valid := ⟨by decide, by decide⟩
  have hspells := Json.spells_of_written hlatest.fits.integral (.inr rfl)
  have hdeepest : Json.deepest (datedContext latestTime).toJson.pretty = 3 :=
    (Json.deepest_of_spells hspells).trans (by decide)
  obtain ⟨hcontexts, htimes⟩ := contexts_readBack
  obtain ⟨hreports, hgroups⟩ := htimes earliestTime hearliest
  exact ⟨hlatest, hearliest, (hcontexts _ hlatest _ (.inr rfl)).shallow (by omega), hgroups _ [],
    hreports _ _ 1 _ rfl rfl⟩

example : Time.Rfc3339.write latestTime = "+262142-12-31T23:59:59.999999Z" := by
  cbv

end Mishap
