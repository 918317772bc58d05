import Mishap.Breaker

/-!
# Runs of a breaker

A run is a list of calls, the newest first, over a clock that only moves forward. It is replayed
from the call at its end: `runFrom` gives the breaker, `effectsFrom` what others were made to notice
so far. The lemmas on `moveTo` and `apply` say once what a call does to each part of a breaker.
-/

namespace Mishap.Breaker

/-- What a run consists of: calls on the breaker, and time that passes between them. -/
inductive Call where
  | failure
  | success
  /-- Whether work may be tried. -/
  | ask
  | setObserver (o? : Option Observer)
  | onChange (tag : String)
  | advance (span : Time.Span)
  deriving DecidableEq, Repr

/-- Calls, the newest first. -/
abbrev History := List Call

/-- The breaker after a call, and what the call lets others notice. -/
def Call.apply (now : Time.Instant) : Call → Breaker → Breaker × List Effect
  | failure, b => b.recordFailure now
  | success, b => b.recordSuccess
  | ask, b => (b.canExecute now).2
  | setObserver o?, b => (b.setObserver o?, [])
  | onChange tag, b => (b.onChange tag, [])
  | advance _, b => (b, [])

/-- The time after a run that began at a moment. -/
def clockFrom (start : Time.Instant) : History → Time.Instant
  | [] => start
  | .advance span :: h => (clockFrom start h).after span
  | _ :: h => clockFrom start h

/-- The breaker after a run. -/
def runFrom (start : Time.Instant) (b : Breaker) : History → Breaker
  | [] => b
  | c :: h => (c.apply (clockFrom start h) (runFrom start b h)).1

/-- What a run lets others notice, in the order in which it happens. -/
def effectsFrom (start : Time.Instant) (b : Breaker) : History → List Effect
  | [] => []
  | c :: h => effectsFrom start b h ++ (c.apply (clockFrom start h) (runFrom start b h)).2

/-! ### The parts of a breaker -/

/-- A change of state changes the state alone. -/
theorem moveTo_fst (b : Breaker) (after : CircuitState) :
    (b.moveTo after).1 = { b with state := after } := by
  unfold moveTo
  split
  · next h => rw [← h]
  · rfl

/-- A failure is counted and dated; the state is open if it was closed and the count has reached
the limit. -/
theorem recordFailure_fst (now : Time.Instant) (b : Breaker) :
    (b.recordFailure now).1 =
      { b with
        failures := min (b.failures + 1) limit
        lastFailure? := some now
        state :=
          if b.state = .closed ∧ b.settings.maxFailures ≤ min (b.failures + 1) limit then .open
          else b.state } := by
  unfold recordFailure
  dsimp only
  split
  · next h => rw [moveTo_fst]
  · rfl

/-- A success closes a half-open circuit, and changes nothing else. -/
theorem recordSuccess_fst (b : Breaker) :
    b.recordSuccess.1 =
      if b.state = .halfOpen then { b with failures := 0, state := .closed } else b := by
  unfold recordSuccess
  split
  · rw [moveTo_fst]
  · rfl

/-- Only an open circuit that is not due refuses. -/
theorem canExecute_fst (now : Time.Instant) (b : Breaker) :
    (b.canExecute now).1 = !(b.state = .open && !b.recoveryDue now) := by
  unfold canExecute
  cases hs : b.state <;> cases hd : b.recoveryDue now <;> simp

/-- A question moves an open circuit that is due, and changes nothing else. -/
theorem canExecute_breaker (now : Time.Instant) (b : Breaker) :
    (b.canExecute now).2.1 =
      if b.state = .open ∧ b.recoveryDue now = true then { b with state := .halfOpen } else b := by
  unfold canExecute
  by_cases hs : b.state = .open
  · by_cases hd : b.recoveryDue now = true
    · rw [if_pos hs, if_pos hd, if_pos ⟨hs, hd⟩, moveTo_fst]
    · rw [if_pos hs, if_neg hd, if_neg (fun h => hd h.2)]
  · rw [if_neg hs, if_neg (fun h => hs h.1)]

/-- No call changes the name or the settings. -/
theorem apply_name_settings (c : Call) (now : Time.Instant) (b : Breaker) :
    (c.apply now b).1.name = b.name ∧ (c.apply now b).1.settings = b.settings := by
  cases c with
  | failure => simp only [Call.apply, recordFailure_fst, and_self]
  | success => simp only [Call.apply, recordSuccess_fst]; split <;> exact ⟨rfl, rfl⟩
  | ask => simp only [Call.apply, canExecute_breaker]; split <;> exact ⟨rfl, rfl⟩
  | setObserver o? => exact ⟨rfl, rfl⟩
  | onChange tag => exact ⟨rfl, rfl⟩
  | advance span => exact ⟨rfl, rfl⟩

/-- A run keeps the name and the settings. -/
theorem runFrom_name_settings (start : Time.Instant) (b : Breaker) (h : History) :
    (runFrom start b h).name = b.name ∧ (runFrom start b h).settings = b.settings := by
  induction h with
  | nil => exact ⟨rfl, rfl⟩
  | cons c h ih =>
    have hc := apply_name_settings c (clockFrom start h) (runFrom start b h)
    exact ⟨hc.1.trans ih.1, hc.2.trans ih.2⟩

/-! ### Time -/

/-- Time moves on by exactly the span. -/
theorem toNanos_after (t : Time.Instant) (s : Time.Span) :
    (t.after s).toNanos = t.toNanos + s.toNanos := by
  have hd := Nat.div_add_mod (t.nanos + s.nanos) 1000000000
  simp only [Time.Instant.after, Time.Instant.toNanos, Time.Span.toNanos]
  omega

/-- No call takes the clock back. -/
theorem clockFrom_le_cons (start : Time.Instant) (c : Call) (h : History) :
    (clockFrom start h).toNanos ≤ (clockFrom start (c :: h)).toNanos := by
  cases c with
  | advance span => rw [clockFrom, toNanos_after]; omega
  | _ => exact Int.le_refl _

end Mishap.Breaker
