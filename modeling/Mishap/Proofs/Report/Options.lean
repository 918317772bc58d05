import Mishap.Proofs.Report.Agreement

/-!
# What options change in a report

The pattern of the options decides the text of the time, and nothing else does: a pattern with an
unknown item anywhere gives the RFC 3339 text, any other is rendered to its end
(`ReportOptions.stamps`). An empty pattern that is set counts as none; one that stands in the
options is rendered like any other, so that reports have no time (`not_all_stamped`). Two options
give reports of one error that differ in times and stacks alone, and each level of a report has its
own stack or none (`formatted_of_possible`).
-/

namespace Mishap

/-! ### Patterns as a whole -/

namespace Time.Pattern

/-- Somewhere in the pattern a percent sign stands before what is no item. -/
inductive Unknown : List Char → Prop
  | here {s : List Char} (unknown : item? s = none) : Unknown ('%' :: s)
  | literal {c : Char} {s : List Char} (plain : c ≠ '%') (later : Unknown s) : Unknown (c :: s)
  | item {s : List Char} {ps : List PatternPart} {n : Nat} (known : item? s = some (ps, n))
    (later : Unknown (s.drop n)) : Unknown ('%' :: s)

/-- A text renders a pattern at a time: item by item, up to the end of the pattern. -/
inductive Renders (t : Instant) : List Char → List Char → Prop
  | done : Renders t [] []
  | literal {c : Char} {s text : List Char} (plain : c ≠ '%') (later : Renders t s text) :
    Renders t (c :: s) (c :: text)
  | item {s text : List Char} {ps : List PatternPart} {n : Nat} (known : item? s = some (ps, n))
    (later : Renders t (s.drop n) text) : Renders t ('%' :: s) (ps.flatMap (partChars t) ++ text)

/-- A pattern is refused exactly if it has an unknown item somewhere. -/
theorem parse?_eq_none_iff (s : List Char) : parse? s = none ↔ Unknown s := by
  induction s using parse?.induct with
  | case1 =>
    rw [parse?]
    exact iff_of_false nofun nofun
  | case2 s hitem =>
    rw [parse?, if_pos rfl, hitem]
    exact iff_of_true rfl (.here hitem)
  | case3 s ps n hitem ih =>
    rw [parse?, if_pos rfl, hitem]
    simp only [Option.map_eq_none_iff, ih]
    constructor
    · exact .item hitem
    · rintro (hunknown | ⟨hplain, -⟩ | ⟨hknown, hlater⟩)
      · exact absurd (hitem.symm.trans hunknown) nofun
      · exact absurd rfl hplain
      · cases hitem.symm.trans hknown
        exact hlater
  | case4 c s hplain ih =>
    rw [parse?, if_neg hplain, Option.map_eq_none_iff, ih]
    constructor
    · exact .literal hplain
    · rintro (- | ⟨-, hlater⟩ | -)
      · exact absurd rfl hplain
      · exact hlater
      · exact absurd rfl hplain

/-- A pattern that is understood is rendered to its end. -/
theorem renders_of_parse? (t : Instant) {s : List Char} {ps : List PatternPart}
    (h : parse? s = some ps) : Renders t s (ps.flatMap (partChars t)) := by
  induction s using parse?.induct generalizing ps with
  | case1 =>
    rw [parse?] at h
    cases h
    exact .done
  | case2 s hitem =>
    rw [parse?, if_pos rfl, hitem] at h
    exact absurd h nofun
  | case3 s qs n hitem ih =>
    rw [parse?, if_pos rfl, hitem] at h
    obtain ⟨rest, hrest, rfl⟩ := Option.map_eq_some_iff.mp h
    rw [List.flatMap_append]
    exact .item hitem (ih hrest)
  | case4 c s hplain ih =>
    rw [parse?, if_neg hplain] at h
    obtain ⟨rest, hrest, rfl⟩ := Option.map_eq_some_iff.mp h
    exact .literal hplain (ih hrest)

/-- What stands before an unknown item is not rendered either. -/
example : parse? "%Y-%m %Q".toList = none := by
  rw [parse?_eq_none_iff]
  exact .item rfl (.literal (by decide) (.item rfl (.literal (by decide) (.here rfl))))

end Time.Pattern

/-! ### Times of reports -/

open Time.Pattern (Unknown Renders)

/-- The text of a time by some options: that of RFC 3339 in whole seconds, or the whole rendering of
a pattern. -/
structure ReportOptions.Stamps (o : ReportOptions) (now : Time.Instant) : Prop where
  unset : o.pattern? = none → o.timestamp now = Time.Rfc3339.writeSeconds now
  /-- A pattern that is set stands in the options, unless it is empty: then there is none. -/
  built : ∀ p, (o.withPattern p).pattern? = if p = "" then none else some p
  empty : (o.withPattern "").timestamp now = Time.Rfc3339.writeSeconds now
  unknown : ∀ p, o.pattern? = some p → Unknown p.toList →
    o.timestamp now = Time.Rfc3339.writeSeconds now
  rendered : ∀ p, o.pattern? = some p → ¬ Unknown p.toList →
    ∃ text, Renders now p.toList text ∧ o.timestamp now = String.ofList text
  /-- An empty pattern that was not set but stands in the options is rendered as well. -/
  bare : o.pattern? = some "" → o.timestamp now = ""

/-- Whatever the options are, they give the text of a time so. -/
theorem ReportOptions.stamps (o : ReportOptions) (now : Time.Instant) : o.Stamps now := by
  constructor
  case unset =>
    intro hnone
    rw [timestamp, hnone]
    rfl
  case built => exact fun p => rfl
  case empty => rfl
  case unknown =>
    intro p hp hunknown
    have hrefused := (Time.Pattern.parse?_eq_none_iff p.toList).mpr hunknown
    rw [timestamp, hp, Option.bind_some, Time.Pattern.write?, hrefused]
    rfl
  case rendered =>
    intro p hp hknown
    cases hparts : Time.Pattern.parse? p.toList with
    | none => exact absurd ((Time.Pattern.parse?_eq_none_iff p.toList).mp hparts) hknown
    | some ps =>
      refine ⟨_, Time.Pattern.renders_of_parse? now hparts, ?_⟩
      rw [timestamp, hp, Option.bind_some, Time.Pattern.write?, hparts]
      rfl
  case bare =>
    intro hp
    have hparts : Time.Pattern.parse? "".toList = some [] := by
      rw [String.toList_empty, Time.Pattern.parse?]
    rw [timestamp, hp, Option.bind_some, Time.Pattern.write?, hparts]
    rfl

/-! ### Reports without times and stacks -/

namespace Report

/-- A report without times and stacks, at every level. -/
def bare : Report → Report
  | ⟨message, _, errorType, severity, _, none, context, metadata, recovery?⟩ =>
    ⟨message, "", errorType, severity, "", none, context, metadata, recovery?⟩
  | ⟨message, _, errorType, severity, _, some c, context, metadata, recovery?⟩ =>
    ⟨message, "", errorType, severity, "", some (bare c), context, metadata, recovery?⟩

variable {s : Store} {o : ReportOptions} {now : Time.Instant} {r : Ref}

/-- Without times and stacks the report of a decorated error hangs on that of its cause alone. -/
theorem bare_ofDecorated (d : Decorated) (o : ReportOptions) (now : Time.Instant)
    (cause? : Option Report) :
    (ofDecorated d o now cause?).bare =
      { ofDecorated d o now cause? with
        timestamp := "", stack := "", cause? := cause?.map bare } := by
  cases cause? <;> rfl

/-- Whatever the options are, the reports without times and stacks are the same. -/
theorem bare_ofErrorFrom (o₁ o₂ : ReportOptions) (now : Time.Instant) (fuel : Nat) (r : Ref) :
    (ofErrorFrom s o₁ now fuel r).bare = (ofErrorFrom s o₂ now fuel r).bare := by
  induction fuel generalizing r with
  | zero => rfl
  | succ fuel ih =>
    rw [ofErrorFrom, ofErrorFrom]
    cases s.decorated? r with
    | none => rfl
    | some d =>
      have hcause : (d.cause?.map (ofErrorFrom s o₁ now fuel)).map bare =
          (d.cause?.map (ofErrorFrom s o₂ now fuel)).map bare := by
        rw [Option.map_map, Option.map_map]
        exact Option.map_congr fun q _ => ih q
      dsimp only
      rw [bare_ofDecorated, bare_ofDecorated, hcause]
      rfl

/-- An error that is not decorated is shown by its text alone. -/
theorem ofError_of_plain (h : s.decorated? r = none) (o : ReportOptions) (now : Time.Instant) :
    ofError s o now r = plain (s.text r) := by
  rw [ofError, ofErrorFrom, h]

end Report

namespace Store

/-- What the options do to the reports of an error, which show a line of errors. -/
structure Formatted (s : Store) (now : Time.Instant) (r : Ref) (rs : List Ref) : Prop where
  /-- The levels of a report are those of errors of which each is the cause of the one before it,
  down to the first one that is not decorated or has no cause. -/
  line : Line s.reportedCause? r rs
  levels : ∀ o, (Report.ofError s o now r).levels = rs.map (Report.ofError s o now)
  /-- Two options give reports that differ in times and stacks alone. -/
  alike : ∀ o₁ o₂, (Report.ofError s o₁ now r).bare = (Report.ofError s o₂ now r).bare
  /-- A level of a decorated error has the one text of the time, and its own stack if stacks are
  asked for; -/
  decorated : ∀ o, ∀ q ∈ rs, ∀ d, s.decorated? q = some d →
    (Report.ofError s o now q).timestamp = o.timestamp now ∧
      (Report.ofError s o now q).stack = if o.includeStack then d.trace.render else ""
  /-- any other has neither a time nor a stack. -/
  plain : ∀ o, ∀ q ∈ rs, s.decorated? q = none →
    (Report.ofError s o now q).timestamp = "" ∧ (Report.ofError s o now q).stack = ""

/-- Options change nothing in a report but what they name, and what they make of the time is the
text of RFC 3339 or the whole rendering of their pattern. -/
theorem formatted_of_possible {h : History} (hp : Possible h) (now : Time.Instant) (r : Ref) :
    (∃ rs, (after h).Formatted now r rs) ∧ ∀ o : ReportOptions, o.Stamps now := by
  have hd := descending_after hp
  obtain ⟨rs, hl⟩ := exists_line_reported hd r
  refine ⟨⟨rs, ?_⟩, fun o => o.stamps now⟩
  constructor
  case line => exact hl
  case levels => exact fun o => Report.levels_ofError hd hl
  case alike => exact fun o₁ o₂ => Report.bare_ofErrorFrom o₁ o₂ now (r + 1) r
  case decorated =>
    intro o q _ d hdec
    obtain ⟨cause?, hreport⟩ := Report.ofError_of_decorated hd hdec o now
    rw [hreport]
    exact ⟨rfl, rfl⟩
  case plain =>
    intro o q _ hnone
    rw [Report.ofError_of_plain hnone]
    exact ⟨rfl, rfl⟩

/-- A plain error under two decorated ones, of which the outer has the stack of the inner. -/
def layered : History :=
  [.wrap 1 "outer" [] 0, .wrap 0 "inner" [⟨"run", "run.rs", 7, 0x10⟩] 0, .leaf "plain" 0]

/-- Reports of such an error. -/
theorem formatted_layered :
    Possible layered ∧ (∃ rs, (after layered).Formatted ⟨0, 5⟩ 2 rs) ∧
      ∀ o : ReportOptions, o.Stamps ⟨0, 5⟩ :=
  ⟨by decide, formatted_of_possible (by decide) ⟨0, 5⟩ 2⟩

/-- With an empty pattern in the options the report of a decorated error has no time, although the
time has a text of RFC 3339. -/
theorem not_all_stamped :
    Possible layered ∧ ((after layered).decorated? 2).isSome ∧
      (Report.ofError (after layered) ⟨some "", true⟩ ⟨0, 5⟩ 2).timestamp = "" ∧
      Time.Rfc3339.writeSeconds ⟨0, 5⟩ = "1970-01-01T00:00:00Z" := by
  have hstamps := ReportOptions.stamps ⟨some "", true⟩ ⟨0, 5⟩
  exact ⟨by decide, by decide, hstamps.bare rfl, by decide⟩

example : (Report.ofError (after layered) ⟨some "%H:%M", true⟩ ⟨0, 5⟩ 2).levels.map
      (fun report => (report.timestamp, report.stack)) =
    [("00:00", "run.rs:7 - run\n"), ("00:00", "run.rs:7 - run\n"), ("", "")] := by
  cbv

end Store

end Mishap
