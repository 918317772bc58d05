import Mishap.Proofs.Report.Agreement

/-!
# Where a report shows metadata

A report sets two typed entries apart, each if it stands under its own key: a context, with kind and
severity, and a recovery suggestion. It shows the others among the metadata, whatever they are, but
not what else stands under one of those two keys (`placed_of_possible`, `not_all_placed`).
-/

namespace Mishap

namespace Metadata

/-- An entry is set apart in a report: a typed one that stands under the key of its kind. -/
def SetApart (key : String) : Metadata → Prop
  | context _ => key = contextKey
  | recovery _ => key = recoveryKey
  | _ => False

/-- An entry stands under the key of a kind that is set apart, and is not of that kind. -/
def Misplaced (key : String) (m : Metadata) : Prop :=
  (key = contextKey ∨ key = recoveryKey) ∧ ¬ m.SetApart key

end Metadata

namespace Report

/-- A report shows an entry: a context under its key by kind, severity and well-known fields, a
recovery suggestion under its key as it is, and any other entry among the metadata. -/
def Shows (report : Report) (key : String) (m : Metadata) : Prop :=
  match m with
  | .context c =>
    if key = Metadata.contextKey then
      report.context = c.wellKnown ∧ report.errorType = c.errorType.name ∧
        report.severity = c.severity.name
    else Dictionary.get? key report.metadata = some (Metadata.context c).toJson
  | .recovery c =>
    if key = Metadata.recoveryKey then report.recovery? = some c
    else Dictionary.get? key report.metadata = some (Metadata.recovery c).toJson
  | m => Dictionary.get? key report.metadata = some m.toJson

/-- An entry that is not set apart is to be shown among the metadata. -/
theorem shows_iff_of_not_setApart {report : Report} {key : String} {m : Metadata}
    (h : ¬ m.SetApart key) :
    report.Shows key m ↔ Dictionary.get? key report.metadata = some m.toJson := by
  cases m with
  | context c =>
    have hkey : key ≠ Metadata.contextKey := h
    rw [Shows, if_neg hkey]
  | recovery c =>
    have hkey : key ≠ Metadata.recoveryKey := h
    rw [Shows, if_neg hkey]
  | data v => rfl
  | retry info => rfl

/-- How a report shows the metadata of a decorated error. -/
structure Places (report : Report) (d : Decorated) : Prop where
  /-- An entry is shown exactly if it is not misplaced. -/
  shows_iff : ∀ key m, d.metadata? key = some m → (report.Shows key m ↔ ¬ m.Misplaced key)
  /-- Among the metadata nothing is shown but entries under other keys than the two, -/
  only : ∀ e ∈ report.metadata, e.1 ≠ Metadata.contextKey ∧ e.1 ≠ Metadata.recoveryKey ∧
    ∃ m, d.metadata? e.1 = some m ∧ e.2 = m.toJson
  /-- each once. -/
  distinct : (report.metadata.map (·.1)).Nodup
  /-- Where no typed entry stands under one of the two keys, nothing is set apart for it. -/
  no_context : d.context? = none →
    report.context = [] ∧ report.errorType = defaultType ∧ report.severity = defaultSeverity
  no_recovery : d.recovery? = none → report.recovery? = none

section OfDecorated

variable {d : Decorated} {o : ReportOptions} {now : Time.Instant} {cause? : Option Report}

/-- Among the metadata stands what the error has under any other key than the two. -/
theorem get?_metadata_ofDecorated (key : String) :
    Dictionary.get? key (ofDecorated d o now cause?).metadata =
      if key = Metadata.contextKey ∨ key = Metadata.recoveryKey then none
      else (d.metadata? key).map Metadata.toJson := by
  rw [ofDecorated, Dictionary.get?_mapValues, Dictionary.get?_erase, Dictionary.get?_erase]
  by_cases hcontext : key = Metadata.contextKey
  · subst hcontext
    rfl
  by_cases hrecovery : key = Metadata.recoveryKey
  · subst hrecovery
    rfl
  · rw [if_neg (Ne.symm hrecovery), if_neg (Ne.symm hcontext), if_neg (by simp [*])]
    rfl

/-- Every entry that is set apart is shown. -/
theorem shows_of_setApart {key : String} {m : Metadata} (hm : d.metadata? key = some m)
    (h : m.SetApart key) : (ofDecorated d o now cause?).Shows key m := by
  cases m with
  | context c =>
    cases (h : key = Metadata.contextKey)
    have hcontext : d.context? = some c := by rw [Decorated.context?, hm]; rfl
    rw [Shows, if_pos rfl]
    simp [ofDecorated, hcontext]
  | recovery c =>
    cases (h : key = Metadata.recoveryKey)
    have hrecovery : d.recovery? = some c := by rw [Decorated.recovery?, hm]; rfl
    rw [Shows, if_pos rfl]
    exact hrecovery
  | data v => exact h.elim
  | retry info => exact h.elim

private theorem places_ofDecorated (hd : d.metadata.Ascending) :
    (ofDecorated d o now cause?).Places d := by
  have hascending : (ofDecorated d o now cause?).metadata.Ascending :=
    ((hd.erase Metadata.contextKey).erase Metadata.recoveryKey).mapValues Metadata.toJson
  constructor
  case shows_iff =>
    intro key m hm
    by_cases hapart : m.SetApart key
    · exact iff_of_true (shows_of_setApart hm hapart) fun hmisplaced => hmisplaced.2 hapart
    · rw [shows_iff_of_not_setApart hapart, get?_metadata_ofDecorated, hm]
      by_cases hkey : key = Metadata.contextKey ∨ key = Metadata.recoveryKey
      · rw [if_pos hkey]
        exact iff_of_false nofun fun hplaced => hplaced ⟨hkey, hapart⟩
      · rw [if_neg hkey]
        exact iff_of_true rfl fun hmisplaced => hkey hmisplaced.1
  case only =>
    intro e he
    have hget := Dictionary.get?_of_mem hascending.nodup he
    rw [get?_metadata_ofDecorated] at hget
    by_cases hkey : e.1 = Metadata.contextKey ∨ e.1 = Metadata.recoveryKey
    · rw [if_pos hkey] at hget
      exact absurd hget nofun
    · rw [if_neg hkey] at hget
      obtain ⟨m, hm, hjson⟩ := Option.map_eq_some_iff.mp hget
      exact ⟨fun h => hkey (.inl h), fun h => hkey (.inr h), m, hm, hjson.symm⟩
  case distinct => exact hascending.nodup
  case no_context =>
    intro hnone
    simp [ofDecorated, hnone]
  case no_recovery => exact fun hnone => hnone

end OfDecorated

end Report

namespace Store

/-- Where the metadata of an error and of its causes is shown in a report. -/
structure Placed (s : Store) (o : ReportOptions) (now : Time.Instant) (r : Ref) (rs : List Ref) :
    Prop where
  /-- The levels of the report are those of errors of which each is the cause of the one before it,
  down to the first one that is not decorated or has no cause. -/
  line : Line s.reportedCause? r rs
  levels : (Report.ofError s o now r).levels = rs.map (Report.ofError s o now)
  /-- Each level that comes from a decorated error shows the metadata of that error. -/
  places : ∀ q ∈ rs, ∀ d, s.decorated? q = some d → (Report.ofError s o now q).Places d

/-- At every level a report shows exactly the metadata that is not misplaced. -/
theorem placed_of_possible {h : History} (hp : Possible h) (o : ReportOptions)
    (now : Time.Instant) (r : Ref) : ∃ rs, (after h).Placed o now r rs := by
  have hd := descending_after hp
  obtain ⟨rs, hl⟩ := exists_line_reported hd r
  refine ⟨rs, hl, Report.levels_ofError hd hl, fun q _ d hdec => ?_⟩
  obtain ⟨cause?, hreport⟩ := Report.ofError_of_decorated hd hdec o now
  rw [hreport]
  exact Report.places_ofDecorated (ascending_metadata hp hdec)

/-- An error with a context is wrapped, and the wrapper is given a recovery suggestion under its key
and under another, and free data under the key of contexts. -/
def misfiled : History :=
  [.edit 1 (.annotate Metadata.contextKey (.data (.int 5))),
    .edit 1 (.annotate "hint" (.recovery default)), .edit 1 (.suggest default),
    .wrap 0 "outer" [] 0, .edit 0 (.setContext (.new .network .critical ⟨0, 0⟩ "test" "db.rs" 7)),
    .decorate "inner" [] 0]

/-- Reports of an error with metadata under a key of its own. -/
theorem placed_misfiled :
    Possible misfiled ∧ ∃ rs, (after misfiled).Placed default ⟨0, 0⟩ 1 rs :=
  ⟨by decide, placed_of_possible (by decide) default ⟨0, 0⟩ 1⟩

example : (Report.ofError (after misfiled) default ⟨0, 0⟩ 1).levels.map
      (fun report => (report.errorType, report.metadata.map (·.1))) =
    [("unknown", ["hint"]), ("network", [])] := by
  decide

/-- An entry under the key of contexts that is no context is nowhere in the report. -/
theorem not_all_placed :
    ¬ ∀ h o now r d, Possible h → (after h).decorated? r = some d →
      ∀ key m, d.metadata? key = some m → (Report.ofError (after h) o now r).Shows key m := by
  intro hall
  have hshown := hall misfiled default ⟨0, 0⟩ 1 _ (by decide) rfl Metadata.contextKey
    (.data (.int 5)) rfl
  exact absurd hshown nofun

end Store

end Mishap
