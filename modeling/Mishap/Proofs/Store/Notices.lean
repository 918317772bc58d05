import Mishap.Proofs.Effect
import Mishap.Proofs.Store.Grounded

/-!
# What loggers and observers hear

Over a run a logger hears of what is added to the errors that it is attached to at the time, and of
their reports; an observer hears of the reports of the errors that it observes at the time, before
any logger does (`heard_of_possible`). Reading an error, to export it or to decide on another
attempt, is no action and has no effects.

A wrapper has no logger at first. Its observer is the one that the decorated error nearest to its
cause had when it was wrapped, unless another one is given to it.
-/

namespace Mishap

/-! ### Who hears an effect -/

namespace Logger

/-- An effect is a record for the logger. -/
def hears (l : Logger) : Effect → Bool
  | .logged name _ _ _ => recorder name = l
  | .event e => l = .stream && e.target == target
  | _ => false

/-- A record is for the logger that it was handed to. -/
@[simp] theorem hears_write (l l' : Logger) (c : Record) :
    l.hears (l'.write c) = decide (l' = l) := by
  cases l' <;> simp [write, log, hears, eventOf, eq_comm]

end Logger

namespace Observer

/-- An effect is a notice for the observer. -/
def hears (o : Observer) : Effect → Bool
  | .errorObserved name _ | .transitionObserved name _ _ _ => recorder name = o
  | .errorCounted name | .transitionCounted name _ _ => meter name = o
  | .event e => o = .stream && e.target == target
  | _ => false

/-- A notice is for the observer that was told of the error. -/
theorem filter_hears_recordError (o o' : Observer) (t : String) :
    (o'.recordError t).filter o.hears = if o' = o then o'.recordError t else [] := by
  cases o' <;> cases o <;> simp [recordError, hears, List.filter_cons]

end Observer

/-- No logger hears a notice. -/
@[simp] theorem Logger.filter_hears_recordError (l : Logger) (o : Observer) (t : String) :
    (o.recordError t).filter l.hears = [] := by
  cases o <;> simp [Observer.recordError, hears, Observer.target, Logger.target]

/-- No observer hears a record. -/
@[simp] theorem Observer.hears_write (o : Observer) (l : Logger) (c : Logger.Record) :
    o.hears (l.write c) = false := by
  cases l <;> simp [Logger.write, Logger.log, hears, Logger.eventOf, Observer.target, Logger.target]

/-! ### What an edit lets others notice -/

namespace Decorated.Edit

/-- The record that an edit makes. A suggestion of a recovery and an attempt make none. -/
def record? (d : Decorated) : Edit → Option Logger.Record
  | attachLogger _ =>
    some ⟨.debug, "error created",
      [("message", .string d.message), ("stack", .string d.trace.render)]⟩
  | annotate key value =>
    some ⟨.debug, "metadata added",
      [("key", .string key), ("value", value.toJson), ("error", .string d.message)]⟩
  | setContext c =>
    some ⟨.debug, "error context added",
      [("error_type", .string c.errorType.name), ("severity", .string c.severity.name),
       ("request_id", .string c.requestId), ("component", .string c.component),
       ("error", .string d.message)]⟩
  | setObserver _ | suggest _ | increment _ => none

/-- The logger that the error has after an edit is told of the edit when the error is as it is after
the edit. -/
theorem perform_snd (e : Edit) (d : Decorated) :
    (e.perform d).2 = (e.record? d).toList.flatMap fun c =>
      (e.apply d).1.logger?.toList.map fun l => ⟨(e.apply d).1, l.write c⟩ := by
  cases e with
  | increment now =>
    rw [perform]
    split <;> rfl
  | attachLogger l => rfl
  | setObserver o => rfl
  | suggest r => rfl
  | annotate key value => exact (List.flatMap_singleton _ _).symm
  | setContext c => exact (List.flatMap_singleton _ _).symm

/-- What an edit lets others notice is its record, for the logger that the error has after it. -/
theorem apply_snd (e : Edit) (d : Decorated) :
    (e.apply d).2 = (e.record? d).toList.flatMap fun c =>
      (e.apply d).1.logger?.toList.map fun l => l.write c := by
  rw [apply, perform_snd, List.map_flatMap]
  simp only [List.map_map]
  rfl

/-- When the logger is told of an edit, what the edit wrote can be read from the error. -/
theorem metadata?_of_mem_perform {e : Edit} {d : Decorated} {m : Moment}
    (hm : m ∈ (e.perform d).2) :
    m.error = (e.apply d).1 ∧
      ∀ key value, e.writes? key = some value → m.error.metadata? key = some value := by
  have herror : m.error = (e.apply d).1 := by
    simp only [perform_snd, List.mem_flatMap, List.mem_map] at hm
    obtain ⟨c, -, l, -, rfl⟩ := hm
    rfl
  refine ⟨herror, fun key value hwrites => ?_⟩
  rw [herror, metadata?_apply, hwrites, Option.some_or]

end Decorated.Edit

namespace Store

/-! ### Loggers and observers of errors -/

/-- The logger that was last attached to an error. -/
def attached? : History → Ref → Option Logger
  | [], _ => none
  | .edit q (.attachLogger l) :: h, r => if q = r then some l else attached? h r
  | _ :: h, r => attached? h r

/-- The observer that was last given to an error, else the one that the decorated error nearest to
its cause had when it was wrapped, else one that shows nothing. -/
def observing : History → Ref → Observer
  | [], _ => .silent
  | .edit q (.setObserver o) :: h, r => if q = r then o else observing h r
  | .wrap cause _ _ _ :: h, r =>
    if r = (after h).next then (((after h).nearest? cause).map (observing h)).getD .silent
    else observing h r
  | _ :: h, r => observing h r

/-- Where there is no error yet, no logger was attached, and no observer given. -/
theorem unheard_of_next_le {h : History} (hp : Possible h) {r : Ref} (hr : (after h).next ≤ r) :
    attached? h r = none ∧ observing h r = .silent := by
  induction h with
  | nil => exact ⟨rfl, rfl⟩
  | cons a h ih =>
    obtain ⟨hattached, hobserving⟩ := ih hp.1 (Nat.le_trans (next_le_cons hp) hr)
    have hgiven : ∀ q ∈ a.refs, q ≠ r := fun q hq heq =>
      Nat.lt_irrefl _ (Nat.lt_of_lt_of_le (lt_next_of_given hp List.mem_cons_self hq) (heq ▸ hr))
    -- An edit is given an error that is there, and a wrapper takes a place below the next one.
    cases a with
    | edit q e =>
      have hne : q ≠ r := hgiven q List.mem_cons_self
      cases e <;> simp [attached?, observing, hne, hattached, hobserving]
    | wrap cause message frames levels =>
      have hmade := lt_next_of_body? (decorated?_eq_some_iff.mp
        (decorated?_made (a := .wrap cause message frames levels) hp.1 rfl))
      have hne : r ≠ (after h).next := (Nat.ne_of_lt (Nat.lt_of_lt_of_le hmade hr)).symm
      exact ⟨hattached, (if_neg hne).trans hobserving⟩
    | _ => exact ⟨hattached, hobserving⟩

/-- A decorated error has the logger that was last attached to it, and the observer that observes
it. -/
theorem handlers_after {h : History} (hp : Possible h) {r : Ref} {d : Decorated}
    (hd : (after h).decorated? r = some d) :
    d.logger? = attached? h r ∧ d.observer = observing h r := by
  refine decorated_induction
    (P := fun h r d => d.logger? = attached? h r ∧ d.observer = observing h r) ?_ ?_ hp hd
  · intro a h hp ih d hmade
    obtain ⟨hattached, hobserving⟩ := unheard_of_next_le hp.1 (Nat.le_refl (after h).next)
    obtain ⟨-, ⟨message, frames, levels, rfl, rfl⟩ | ⟨cause, message, frames, levels, rfl, rfl⟩⟩ :=
      Action.decorated_made hmade
    · exact ⟨hattached.symm, hobserving.symm⟩
    · cases hq : (after h).nearest? cause with
      | none =>
        rw [freshOver_of_none hq]
        simp [fresh, attached?, observing, hq, hattached]
      | some q =>
        obtain ⟨inner, hinner⟩ := exists_decorated_of_nearest? hq
        rw [freshOver_of_nearest hq hinner]
        simp [attached?, observing, hq, hattached, (ih q inner hinner).2]
  · intro a h hp r d hd ih
    -- Only an edit changes an error; a new wrapper has a place of its own.
    cases a with
    | edit q e =>
      by_cases hq : q = r
      · subst hq
        rw [Action.revise, if_pos rfl, Decorated.Edit.apply]
        cases e with
        | increment now =>
          rw [Decorated.Edit.perform]
          split <;> exact ih
        | _ => simp [Decorated.Edit.perform, attached?, observing, ih]
      · rw [Action.revise, if_neg hq]
        cases e <;> simp [attached?, observing, hq, ih]
    | wrap cause message frames levels =>
      have hlt := lt_next_of_body? (decorated?_eq_some_iff.mp hd)
      have hne : r ≠ (after h).next := Nat.ne_of_lt hlt
      exact ⟨ih.1, ih.2.trans (if_neg hne).symm⟩
    | _ => exact ih

/-! ### What an action lets others notice -/

namespace Action

/-- The record that an action makes for the logger of an error, with the error. -/
def record? (s : Store) : Action → Option (Ref × Logger.Record)
  | edit r e => (s.decorated? r).bind fun d => (e.record? d).map fun c => (r, c)
  | report r => (s.decorated? r).map fun d =>
      (r, ⟨.error, "error occurred", d.reportFields (d.cause?.bind s.text?)⟩)
  | _ => none

/-- The error that an action reports, with its text. -/
def reported? (s : Store) : Action → Option (Ref × String)
  | report r => (s.decorated? r).bind fun _ => (s.text? r).map fun t => (r, t)
  | _ => none

end Action

/-- A report tells the observer of the error its text, then the logger of the error its parts. -/
theorem report_eq {h : History} (hp : Possible h) (hg : (after h).Grounded) {r : Ref}
    {d : Decorated} (hd : (after h).decorated? r = some d) :
    ∃ t, (after h).text? r = some t ∧ (after h).report r =
      (observing h r).recordError t ++ (attached? h r).toList.map fun l =>
        l.write ⟨.error, "error occurred", d.reportFields (d.cause?.bind (after h).text?)⟩ := by
  have hb := decorated?_eq_some_iff.mp hd
  obtain ⟨hlogger, hobserver⟩ := handlers_after hp hd
  have hcause : d.cause?.map (after h).text = d.cause?.bind (after h).text? := by
    cases hc : d.cause? with
    | none => rfl
    | some c => exact (text?_of_cause hp hg hd hc).symm
  refine ⟨_, text?_eq_some_text hp hg (lt_next_of_body? hb), ?_⟩
  rw [report, hd, ← hlogger, ← hobserver, ← hcause]
  rfl

/-- An action lets the observer of an error hear of a report, then the logger of an error of a
record, and nothing else. -/
theorem effects_apply {a : Action} {h : History} (hp : Possible (a :: h))
    (hg : (after h).Grounded) :
    (a.apply (after h)).2 =
      ((a.reported? (after h)).toList.flatMap fun q => (observing h q.1).recordError q.2) ++
        (a.record? (after h)).toList.flatMap fun q =>
          (attached? (a :: h) q.1).toList.map (·.write q.2) := by
  cases a with
  | edit r e =>
    rw [Action.apply, change, Action.record?]
    cases hd : (after h).decorated? r with
    | none => rfl
    | some d =>
      have hlt := lt_next_of_body? (decorated?_eq_some_iff.mp hd)
      have hedited : (after (.edit r e :: h)).decorated? r = some (e.apply d).1 := by
        rw [decorated?_cons hp hlt, hd, Option.map_some, Action.revise, if_pos rfl]
      have hlogger := (handlers_after hp hedited).1
      change (e.apply d).2 = _
      rw [e.apply_snd, hlogger]
      cases hrecord : e.record? d <;> simp [hrecord, Action.reported?]
  | report r =>
    rw [Action.apply, Action.reported?, Action.record?]
    cases hd : (after h).decorated? r with
    | none => simp [report, hd]
    | some d =>
      obtain ⟨t, ht, hreport⟩ := report_eq hp.1 hg hd
      simp [hreport, ht, attached?]
  | takeGroup p =>
    -- A pool would tell of a buffer with errors in it, but has none.
    rw [Action.apply, takeGroup_eq (sound_after hp.1).clean]
    rfl
  | append r member? => cases member? <;> rfl
  | _ => rfl

/-! ### What a run lets others notice -/

/-- The records that a logger is to hear of: those made on errors that it is attached to at the
time. -/
def records (l : Logger) : History → List Logger.Record
  | [] => []
  | a :: h => records l h ++
      ((a.record? (after h)).toList.filter fun q => attached? (a :: h) q.1 = some l).map (·.2)

/-- The texts that an observer is to hear of: those of the reported errors that it observes at the
time. -/
def notices (o : Observer) : History → List String
  | [] => []
  | a :: h => notices o h ++
      ((a.reported? (after h)).toList.filter fun q => observing h q.1 = o).map (·.2)

/-- Of the effects of an action a logger hears the record, if it is attached to the error. -/
theorem filter_logger_hears_apply {a : Action} {h : History} (hp : Possible (a :: h))
    (hg : (after h).Grounded) (l : Logger) :
    (a.apply (after h)).2.filter l.hears =
      ((a.record? (after h)).toList.filter fun q => attached? (a :: h) q.1 = some l).map
        (l.write ·.2) := by
  have hunheard : ((a.reported? (after h)).toList.flatMap fun q =>
      (observing h q.1).recordError q.2).filter l.hears = [] := by
    cases a.reported? (after h) <;> simp
  rw [effects_apply hp hg, List.filter_append, hunheard, List.nil_append]
  cases a.record? (after h) with
  | none => rfl
  | some q =>
    cases hl : attached? (a :: h) q.1 with
    | none => simp [hl]
    | some l' => by_cases heq : l' = l <;> simp [hl, heq]

/-- Of the effects of an action an observer hears the notice, if it observes the error. -/
theorem filter_observer_hears_apply {a : Action} {h : History} (hp : Possible (a :: h))
    (hg : (after h).Grounded) (o : Observer) :
    (a.apply (after h)).2.filter o.hears =
      ((a.reported? (after h)).toList.filter fun q => observing h q.1 = o).flatMap fun q =>
        o.recordError q.2 := by
  have hunheard : ((a.record? (after h)).toList.flatMap fun q =>
      (attached? (a :: h) q.1).toList.map (·.write q.2)).filter o.hears = [] := by
    cases a.record? (after h) <;> simp
  rw [effects_apply hp hg, List.filter_append, hunheard, List.append_nil]
  cases a.reported? (after h) with
  | none => rfl
  | some q =>
    by_cases heq : observing h q.1 = o <;> simp [heq, Observer.filter_hears_recordError]

/-- A logger hears of exactly its records, in order. -/
theorem filter_logger_hears_effects {h : History} (hp : Possible h)
    (hg : ∀ h₀, h₀ <:+ h → (after h₀).Grounded) (l : Logger) :
    (effects h).filter l.hears = (records l h).map l.write := by
  induction h with
  | nil => rfl
  | cons a h ih =>
    have hrest := ih hp.1 fun h₀ hs => hg h₀ (hs.trans (List.suffix_cons a h))
    have hstep := filter_logger_hears_apply hp (hg h (List.suffix_cons a h)) l
    rw [effects, records, List.filter_append, List.map_append, hrest, hstep, List.map_map]
    rfl

/-- An observer hears of exactly its notices, in order. -/
theorem filter_observer_hears_effects {h : History} (hp : Possible h)
    (hg : ∀ h₀, h₀ <:+ h → (after h₀).Grounded) (o : Observer) :
    (effects h).filter o.hears = (notices o h).flatMap o.recordError := by
  induction h with
  | nil => rfl
  | cons a h ih =>
    have hrest := ih hp.1 fun h₀ hs => hg h₀ (hs.trans (List.suffix_cons a h))
    have hstep := filter_observer_hears_apply hp (hg h (List.suffix_cons a h)) o
    rw [effects, notices, List.filter_append, List.flatMap_append, hrest, hstep, List.flatMap_map]

/-- What loggers and observers hear over a run. -/
structure Heard (h : History) : Prop where
  /-- A logger hears of exactly the records that were made on errors that it was attached to at the
  time, in the order of the run. -/
  records : ∀ l, (effects h).filter l.hears = (records l h).map l.write
  /-- Each record is told to the logger as a whole. -/
  written : ∀ (l : Logger) c, l.Receives c (l.write c)
  /-- An observer hears of exactly the reports of errors that it observed at the time, in the order
  of the run, of each once and with the text that the error had. -/
  notices : ∀ o : Observer, ∃ told,
    List.Forall₂ (fun t es => o.HearsError t es) (notices o h) told ∧
    (effects h).filter o.hears = told.flatten
  /-- A report tells first the observer of the error the text that the error has, then the logger of
  the error its parts. It tells no other observer, and this one once, unless it is silent. -/
  report : ∀ r h₀, .report r :: h₀ <:+ h → ∀ d, (after h₀).decorated? r = some d →
    ∃ t told, (after h₀).text? r = some t ∧ (observing h₀ r).HearsError t told ∧
      ((Action.report r).apply (after h₀)).2 =
        told ++ ((attached? h₀ r).toList.map fun l =>
          l.write ⟨.error, "error occurred", d.reportFields (d.cause?.bind (after h₀).text?)⟩) ∧
      ∀ o, (((Action.report r).apply (after h₀)).2.filter o.hears).length =
        if observing h₀ r = o ∧ o ≠ .silent then 1 else 0
  /-- A new wrapper has no logger, and the observer of the decorated error nearest to its cause. -/
  wrapper : ∀ cause message frames levels h₀, .wrap cause message frames levels :: h₀ <:+ h →
    ∃ d, (after (.wrap cause message frames levels :: h₀)).decorated? (after h₀).next = some d ∧
      d.logger? = none ∧
      d.observer = (((after h₀).nearest? cause).map (observing h₀)).getD .silent
  /-- An error has the logger that was last attached to it, and the observer last given to it or
  taken over. -/
  handlers : ∀ r d, (after h).decorated? r = some d →
    d.logger? = attached? h r ∧ d.observer = observing h r
  /-- When the logger is told of an edit, the error is as it is after the edit, with the entry that
  was written. -/
  visible : ∀ r e h₀, .edit r e :: h₀ <:+ h → ∀ d, (after h₀).decorated? r = some d →
    ((Action.edit r e).apply (after h₀)).2 = (e.perform d).2.map (·.effect) ∧
      ∀ m ∈ (e.perform d).2, (after (.edit r e :: h₀)).decorated? r = some m.error ∧
        ∀ key value, e.writes? key = some value → m.error.metadata? key = some value

/-- What loggers and observers hear, in a run in which no group comes to contain itself. -/
theorem heard_of_possible {h : History} (hp : Possible h)
    (hg : ∀ h₀, h₀ <:+ h → (after h₀).Grounded) : Heard h where
  records := filter_logger_hears_effects hp hg
  written := Logger.receives_write
  notices o := by
    refine ⟨(Store.notices o h).map o.recordError, ?_, ?_⟩
    · rw [List.forall₂_map_right_iff, List.forall₂_same]
      exact fun t _ => o.hearsError_recordError t
    · rw [filter_observer_hears_effects hp hg, List.flatMap_def]
  report r h₀ hs d hd := by
    have hs₀ : h₀ <:+ h := (List.suffix_cons _ h₀).trans hs
    obtain ⟨t, ht, hreport⟩ := report_eq (possible_of_suffix hp hs₀) (hg h₀ hs₀) hd
    have htold := (observing h₀ r).hearsError_recordError t
    refine ⟨t, _, ht, htold, hreport, fun o => ?_⟩
    have hunheard : ∀ c, ((attached? h₀ r).toList.map fun l => l.write c).filter o.hears = [] := by
      cases attached? h₀ r <;> simp
    rw [Action.apply, hreport, List.filter_append, Observer.filter_hears_recordError, hunheard,
      List.append_nil]
    by_cases heq : observing h₀ r = o
    · rw [if_pos heq, htold.length, heq]
      simp [ite_not]
    · simp [heq]
  wrapper cause message frames levels h₀ hs := by
    have hp₀ := possible_of_suffix hp hs
    have hd := decorated?_made (a := .wrap cause message frames levels) hp₀.1 rfl
    obtain ⟨-, hobserver⟩ := handlers_after hp₀ hd
    exact ⟨_, hd, logger?_freshOver _ _ _ _, hobserver.trans (if_pos rfl)⟩
  handlers _ _ := handlers_after hp
  visible r e h₀ hs d hd := by
    have hp₀ := possible_of_suffix hp hs
    have hlt := lt_next_of_body? (decorated?_eq_some_iff.mp hd)
    refine ⟨?_, fun m hm => ?_⟩
    · rw [Action.apply, change, hd]
      rfl
    · obtain ⟨herror, hwrites⟩ := Decorated.Edit.metadata?_of_mem_perform hm
      refine ⟨?_, hwrites⟩
      rw [decorated?_cons hp₀ hlt, hd, Option.map_some, Action.revise, if_pos rfl, herror]

/-- An error with a logger and an observer is wrapped behind another error, and the wrapper is
wrapped again; loggers and observers change in between, and a group of the first error is wrapped
too. -/
def overheard : History :=
  [.report 5, .wrap 4 "grouped" [] 0, .append 4 (some 0), .addGroup, .report 0, .report 2,
    .edit 2 (.setContext (.new .network .critical ⟨0, 0⟩ "test" "db.rs" 7)),
    .edit 2 (.attachLogger (.recorder "b")), .edit 0 (.annotate "k" (.data .null)),
    .edit 3 (.suggest default), .edit 3 (.attachLogger (.recorder "a")), .report 3,
    .wrap 2 "second" [] 0, .edit 0 (.setObserver (.meter "m")), .edit 2 (.attachLogger .stream),
    .edit 2 (.annotate "k" (.data .null)), .wrap 1 "first" [] 0, .link "node" 0,
    .edit 0 (.setObserver (.recorder "x")), .edit 0 (.attachLogger (.recorder "a")),
    .decorate "root" [] 0]

private theorem grounded_overheard : ∀ h₀, h₀ <:+ overheard → (after h₀).Grounded := by
  have hrank : ∀ h₀ ∈ overheard.tails, ∀ r < (after h₀).next, ∀ q ∈ (after h₀).shows r, q < r := by
    decide
  exact fun h₀ hs => grounded_of_rank id (hrank h₀ (List.mem_tails _ _ |>.mpr hs))

/-- What loggers and observers hear in such a run. -/
theorem heard_overheard :
    Possible overheard ∧ (∀ h₀, h₀ <:+ overheard → (after h₀).Grounded) ∧ Heard overheard :=
  ⟨by decide, grounded_overheard, heard_of_possible (by decide) grounded_overheard⟩

example :
    (records (.recorder "a") overheard).map (·.message) =
        ["error created", "error created", "metadata added", "error occurred"] ∧
      notices (.recorder "x") overheard = ["second: first: node", "first: node"] := by
  decide

end Store

end Mishap
