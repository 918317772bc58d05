import Mishap.Proofs.Dictionary
import Mishap.Proofs.Report.Entries
import Mishap.Report.Output

/-!
# Two exports of one error

A report follows the causes of an error as long as they are decorated, an entry goes from each error
to the decorated one nearest to it. Over the levels of the report the two go through the same
errors; the message of an entry is made of the messages of the report from its level on, and what
metadata the report shows, kind, severity and recovery suggestion included, is in the entry
(`aligned_of_possible`).
-/

namespace Mishap

/-- A report and those of its causes. -/
def Report.levels : Report → List Report
  | ⟨message, timestamp, errorType, severity, stack, none, context, metadata, recovery?⟩ =>
    [⟨message, timestamp, errorType, severity, stack, none, context, metadata, recovery?⟩]
  | ⟨message, timestamp, errorType, severity, stack, some c, context, metadata, recovery?⟩ =>
    ⟨message, timestamp, errorType, severity, stack, some c, context, metadata, recovery?⟩ ::
      levels c

namespace Store

variable {s : Store} {r q : Ref} {rs : List Ref}

/-! ### Reported causes -/

/-- The error of which a report is shown as the cause. -/
def reportedCause? (s : Store) (r : Ref) : Option Ref := (s.decorated? r).bind (·.cause?)

private theorem decorated?_of_reportedCause? (h : s.reportedCause? r = some q) :
    ∃ d, s.decorated? r = some d ∧ d.cause? = some q :=
  Option.bind_eq_some_iff.mp h

private theorem exportedCause?_of_decorated (hd : s.Descending) {d : Decorated}
    (h : s.decorated? r = some d) : s.exportedCause? r = d.cause? := by
  rw [exportedCause?, nearest?_of_decorated hd h, Option.bind_some, h]

/-- A reported cause is exported as well. -/
theorem exportedCause?_of_reportedCause? (hd : s.Descending) (h : s.reportedCause? r = some q) :
    s.exportedCause? r = some q := by
  obtain ⟨d, hdec, hcause⟩ := decorated?_of_reportedCause? h
  rw [exportedCause?_of_decorated hd hdec, hcause]

/-- A reported cause is older than the error. -/
theorem lt_of_reportedCause? (hd : s.Descending) (h : s.reportedCause? r = some q) : q < r :=
  (exportedCause?_spec hd (exportedCause?_of_reportedCause? hd h)).1

/-- From each error one comes to the last reported cause. -/
theorem exists_line_reported (hd : s.Descending) (r : Ref) : ∃ rs, Line s.reportedCause? r rs :=
  exists_line (fun _ _ hq => lt_of_reportedCause? hd hq) r

namespace Line

/-- The line of a report is the beginning of that of the entry. -/
theorem isPrefix (hd : s.Descending) {rs' : List Ref} (hl : Line s.reportedCause? r rs)
    (hl' : Line s.exportedCause? r rs') : rs <+: rs' := by
  induction hl generalizing rs' with
  | last => cases hl' <;> simp
  | next h _ ih =>
    have hnext := exportedCause?_of_reportedCause? hd h
    cases hl' with
    | last hnone => exact absurd (hnext.symm.trans hnone) nofun
    | next h' hl' =>
      cases hnext.symm.trans h'
      exact (List.prefix_cons_inj _).mpr (ih hl')

/-- From each of its errors on, the rest of a line is the line of that error. -/
theorem drop {next? : Ref → Option Ref} (hl : Line next? r rs) {i : Nat} (h : rs[i]? = some q) :
    Line next? q (rs.drop i) := by
  induction hl generalizing i with
  | last hnone =>
    cases i with
    | zero =>
      cases h
      exact .last hnone
    | succ i => exact absurd h nofun
  | next hnext hl ih =>
    cases i with
    | zero =>
      cases h
      exact .next hnext hl
    | succ i => exact ih h

/-- Whatever is not the last of a line has an error behind it. -/
theorem exists_next {next? : Ref → Option Ref} (hl : Line next? r rs) (h : 1 < rs.length) :
    ∃ q, next? r = some q := by
  cases hl with
  | last => simp at h
  | next hnext => exact ⟨_, hnext⟩

end Line

end Store

/-! ### Reports over a line -/

namespace Report

variable {s : Store} {o : ReportOptions} {now : Time.Instant} {r : Ref} {rs : List Ref}

/-- The report of an error over that of its cause; of an error that is not decorated it shows the
text alone. -/
def layer (s : Store) (o : ReportOptions) (now : Time.Instant) (r : Ref)
    (cause? : Option Report) : Report :=
  match s.decorated? r with
  | none => plain (s.text r)
  | some d => ofDecorated d o now cause?

private theorem ofErrorFrom_succ (fuel : Nat) (r : Ref) :
    ofErrorFrom s o now (fuel + 1) r =
      layer s o now r ((s.reportedCause? r).map (ofErrorFrom s o now fuel)) := by
  rw [ofErrorFrom, Store.reportedCause?, layer]
  cases s.decorated? r <;> rfl

/-- The report of an error is a layer over the report of its reported cause. -/
theorem ofError_eq (hd : s.Descending) (r : Ref) :
    ofError s o now r = layer s o now r ((s.reportedCause? r).map (ofError s o now)) :=
  Store.bounded_eq ofErrorFrom_succ (fun _ _ hq => Store.lt_of_reportedCause? hd hq)
    (Nat.lt_succ_self r)

/-- A report shows the report of the reported cause. -/
theorem cause?_ofError (hd : s.Descending) (r : Ref) :
    (ofError s o now r).cause? = (s.reportedCause? r).map (ofError s o now) := by
  rw [ofError_eq hd, layer, Store.reportedCause?]
  cases s.decorated? r <;> rfl

/-- A report has the message of a decorated error, and the text of any other. -/
theorem message_ofError (hd : s.Descending) (r : Ref) :
    (ofError s o now r).message = ((s.decorated? r).map (·.message)).getD (s.text r) := by
  rw [ofError_eq hd, layer]
  cases s.decorated? r <;> rfl

/-- The report of a decorated error is its own layer over the report of some cause. -/
theorem ofError_of_decorated (hd : s.Descending) {d : Decorated} (hdec : s.decorated? r = some d)
    (o : ReportOptions) (now : Time.Instant) :
    ∃ cause?, ofError s o now r = ofDecorated d o now cause? := by
  refine ⟨(s.reportedCause? r).map (ofError s o now), ?_⟩
  rw [ofError_eq hd, layer, hdec]

/-- The levels of a report are the report itself and the levels of its cause. -/
theorem levels_eq (report : Report) :
    report.levels = report :: (report.cause?.map levels).getD [] := by
  obtain ⟨_, _, _, _, _, _ | c, _, _, _⟩ := report <;> rfl

/-- The report of an error and those of its causes are the reports of a line of errors. -/
theorem levels_ofError (hd : s.Descending) (hl : Store.Line s.reportedCause? r rs) :
    (ofError s o now r).levels = rs.map (ofError s o now) :=
  hl.levels_eq_map levels_eq (cause?_ofError hd)

/-- The messages of a report are together the text of the error. -/
theorem text?_eq_messages (o : ReportOptions) (now : Time.Instant) {h : Store.History}
    (hp : Store.Possible h) (hg : (Store.after h).Grounded)
    (hl : Store.Line (Store.after h).reportedCause? r rs) (hr : r < (Store.after h).next) :
    (Store.after h).text? r =
      some (": ".intercalate (rs.map fun q => (ofError (Store.after h) o now q).message)) := by
  have hd := Store.descending_after hp
  induction hl with
  | @last r hnone =>
    rw [List.map_singleton, String.intercalate_singleton, message_ofError hd]
    cases hdec : (Store.after h).decorated? r with
    | none => exact Store.text?_eq_some_text hp hg hr
    | some d =>
      have hcause : d.cause? = none := by simpa [Store.reportedCause?, hdec] using hnone
      rw [Store.text?_decorated hdec, hcause]
      rfl
  | @next r q rs hnext hl ih =>
    obtain ⟨d, hdec, hcause⟩ := Store.decorated?_of_reportedCause? hnext
    have hrest := ih (Nat.lt_trans (Store.lt_of_reportedCause? hd hnext) hr)
    rw [Store.text?_decorated hdec, hcause]
    -- What is behind the message is the text of the cause, which the rest of the line makes up.
    cases hl with
    | last => simp [hrest, message_ofError hd, hdec, String.intercalate_cons_cons]
    | next => simp [hrest, message_ofError hd, hdec, String.intercalate_cons_cons]

end Report

/-! ### Metadata -/

/-- What the report and the entry of a decorated error tell alike. -/
structure Report.Matches (report : Report) (entry : Entry) (d : Decorated) : Prop where
  kind : entry.kind = .decorated
  metadata : report.metadata =
    Dictionary.erase Metadata.recoveryKey (Dictionary.erase Metadata.contextKey entry.metadata)
  context : ∀ c, d.metadata? Metadata.contextKey = some (.context c) →
    ∃ v, Dictionary.get? Metadata.contextKey entry.metadata = some v ∧
      v.member? "type" = some (.string report.errorType) ∧
      v.member? "severity" = some (.string report.severity)
  recovery : ∀ c, d.metadata? Metadata.recoveryKey = some (.recovery c) →
    ∃ shown, report.recovery? = some shown ∧
      Dictionary.get? Metadata.recoveryKey entry.metadata = some (Metadata.recovery shown).toJson

/-- Ordering the members of an object by name leaves them what they are. -/
theorem Json.member?_byName {ms : List (String × Json)} (h : (ms.map (·.1)).Nodup)
    (name : String) : (Json.object ms).byName.member? name = (Json.object ms).member? name :=
  Dictionary.get?_ofEntries h name

/-- Among free data a context has its kind and its severity as members. -/
theorem Context.member?_byName (c : Context) :
    c.toJson.byName.member? "type" = some (.string c.errorType.name) ∧
      c.toJson.byName.member? "severity" = some (.string c.severity.name) := by
  have hnames : ["timestamp", "type", "severity", "operation", "component", "request_id", "user",
      "environment", "version", "file", "line", "data"].Nodup := by decide
  have hmember : ∀ name, c.toJson.byName.member? name = c.toJson.member? name :=
    Json.member?_byName (by exact hnames)
  exact ⟨hmember "type", hmember "severity"⟩

private theorem Report.matches_ofError {s : Store} (hd : s.Descending) {r : Ref} {d : Decorated}
    (hdec : s.decorated? r = some d) (o : ReportOptions) (now : Time.Instant) :
    (Report.ofError s o now r).Matches (Entry.ofError s r) d := by
  obtain ⟨cause?, hreport⟩ := Report.ofError_of_decorated hd hdec o now
  obtain ⟨hkind, hmetadata⟩ := Entry.ofError_of_decorated hd hdec
  rw [hreport]
  refine ⟨hkind, ?_, fun c hc => ?_, fun c hc => ?_⟩
  · simp only [hmetadata, Report.ofDecorated, Dictionary.mapValues_erase]
  · have hget : Dictionary.get? Metadata.contextKey d.metadata = some (.context c) := hc
    have hcontext : d.context? = some c := by rw [Decorated.context?, hc]; rfl
    refine ⟨c.toJson.byName, ?_, ?_⟩
    · rw [hmetadata, Dictionary.get?_mapValues, hget]
      rfl
    · simp only [Report.ofDecorated, hcontext, Option.map_some, Option.getD_some]
      exact c.member?_byName
  · have hget : Dictionary.get? Metadata.recoveryKey d.metadata = some (.recovery c) := hc
    refine ⟨c, ?_, ?_⟩
    · simp only [Report.ofDecorated, Decorated.recovery?, hc]
      rfl
    · rw [hmetadata, Dictionary.get?_mapValues, hget]
      rfl

namespace Store

/-- How the report of a decorated error and its entry go together, level by level. -/
structure Aligned (s : Store) (o : ReportOptions) (now : Time.Instant) (r : Ref) (rs : List Ref) :
    Prop where
  /-- The levels of the report are those of errors of which each is the cause of the one before it,
  down to the first one that is not decorated or has no cause. -/
  line : Line s.reportedCause? r rs
  length_eq : (Report.ofError s o now r).levels.length = rs.length
  /-- All but the last of these errors are decorated. -/
  decorated : ∀ i q, rs[i]? = some q → i + 1 < rs.length → (s.decorated? q).isSome
  /-- For each level of the report there is one of the entry. Its message is the text of the error
  and is made of the messages of the report from that level on. -/
  level : ∀ i report, (Report.ofError s o now r).levels[i]? = some report →
    ∃ q entry, rs[i]? = some q ∧ (Entry.ofError s r).levels[i]? = some entry ∧
      s.text? q = some entry.message ∧
      entry.message =
        ": ".intercalate (((Report.ofError s o now r).levels.drop i).map (·.message)) ∧
      ∀ d, s.decorated? q = some d → report.Matches entry d

/-- The two exports of a decorated error agree, whatever the options. -/
theorem aligned_of_possible {h : History} (hp : Possible h) (hg : (after h).Grounded)
    (o : ReportOptions) (now : Time.Instant) {r : Ref} {d : Decorated}
    (hdec : (after h).decorated? r = some d) : ∃ rs, (after h).Aligned o now r rs := by
  have hd := descending_after hp
  have hr := lt_next_of_body? (decorated?_eq_some_iff.mp hdec)
  obtain ⟨rs, hl⟩ := exists_line_reported hd r
  obtain ⟨rs', hl'⟩ := exists_line_exported hd r
  obtain ⟨rest, rfl⟩ := hl.isPrefix hd hl'
  have hlevels : (Report.ofError (after h) o now r).levels =
      rs.map (Report.ofError (after h) o now) := Report.levels_ofError hd hl
  refine ⟨rs, hl, by rw [hlevels, List.length_map], fun i q hq hi => ?_, fun i report hi => ?_⟩
  · obtain ⟨next, hnext⟩ := (hl.drop hq).exists_next (by rw [List.length_drop]; omega)
    obtain ⟨d, hd, -⟩ := decorated?_of_reportedCause? hnext
    rw [hd]
    rfl
  · rw [hlevels, List.getElem?_map] at hi
    obtain ⟨q, hq, rfl⟩ := Option.map_eq_some_iff.mp hi
    have hq' : (rs ++ rest)[i]? = some q := by
      rw [List.getElem?_append_left (List.getElem?_eq_some_iff.mp hq).1, hq]
    have hlt := lt_next_of_reaches hp hr (hl'.reaches hd q (List.mem_of_getElem? hq'))
    have htext := text?_eq_some_text hp hg hlt
    have hmessages := Report.text?_eq_messages o now hp hg (hl.drop hq) hlt
    refine ⟨q, Entry.ofError (after h) q, hq, ?_, ?_, ?_, fun d hdec => ?_⟩
    · rw [Entry.levels_ofError hd hl', List.getElem?_map, hq']
      rfl
    · rw [Entry.message_ofError hd, htext]
    · rw [Entry.message_ofError hd, hlevels, ← List.map_drop, List.map_map]
      exact Option.some.inj (htext.symm.trans hmessages)
    · exact Report.matches_ofError hd hdec o now

/-- A group is wrapped by an error with a context and a recovery suggestion, and that by another,
with an entry of its own. -/
def described : History :=
  [.edit 3 (.annotate "attempt" (.data (.nat 2))), .wrap 2 "save" [] 0, .edit 2 (.suggest default),
    .edit 2 (.setContext (.new .network .critical ⟨0, 0⟩ "test" "db.rs" 7)), .wrap 0 "flush" [] 0,
    .append 0 (some 1), .leaf "refused" 0, .addGroup]

private theorem grounded_described : (after described).Grounded :=
  grounded_of_rank (fun r => if r = 1 then 0 else r + 1) (by decide)

/-- Report and entry of such an error. -/
theorem aligned_described :
    Possible described ∧ (after described).Grounded ∧
      ∃ d, (after described).decorated? 3 = some d ∧
        ∃ rs, (after described).Aligned default ⟨0, 0⟩ 3 rs :=
  ⟨by decide, grounded_described, _, rfl,
    aligned_of_possible (by decide) grounded_described default ⟨0, 0⟩ rfl⟩

example : (Report.ofError (after described) default ⟨0, 0⟩ 3).levels.map (·.errorType) =
    ["network", "network", "unknown"] := by
  decide

end Store

end Mishap
