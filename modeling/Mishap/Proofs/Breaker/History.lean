import Mishap.Proofs.Breaker.Run

/-!
# The state of a breaker told from its history

What a breaker does is decided by the calls since it was last closed. With fewer failures among
them than the threshold it is closed. From the threshold on it is half-open if somebody has asked
more than the timeout after the latest failure before the question, and open if nobody has.
`sinceClose` and `stateOf` say this without a breaker; `runFrom_eq_history` says that every breaker
does it at every point of every run.
-/

namespace Mishap

/-- How many failures open a circuit. A limit of zero opens it at the first, as a limit of one. -/
def BreakerSettings.threshold (s : BreakerSettings) : Nat := max 1 s.maxFailures

namespace Breaker

/-- A call and the moment at which it was made. -/
structure Stamp where
  time : Time.Instant
  call : Call
  deriving DecidableEq, Repr

/-- The calls of a run with their moments, the newest first. -/
def stamped (start : Time.Instant) : History → List Stamp
  | [] => []
  | c :: h => ⟨clockFrom start h, c⟩ :: stamped start h

/-- How many of the calls are failures. -/
def failureCount (l : List Stamp) : Nat := l.countP (·.call = .failure)

/-- The moment of the latest failure. -/
def latestFailure? (l : List Stamp) : Option Time.Instant :=
  (l.find? (·.call = .failure)).map (·.time)

/-- The moment is more than the timeout after the latest failure of the calls, and these hold as
many failures as open the circuit. -/
def lapsed (s : BreakerSettings) (t : Time.Instant) (before : List Stamp) : Bool :=
  s.threshold ≤ failureCount before &&
    (latestFailure? before).any fun f => f.toNanos + s.timeout.toNanos < t.toNanos

/-- One of the calls asked when the timeout had lapsed. -/
def probed (s : BreakerSettings) : List Stamp → Bool
  | [] => false
  | c :: before => probed s before || (c.call = .ask && lapsed s c.time before)

/-- The state that the calls since the last close lead to. -/
def stateOf (s : BreakerSettings) (l : List Stamp) : CircuitState :=
  if failureCount l < s.threshold then .closed else if probed s l then .halfOpen else .open

/-- The calls since the last close: a success closes a circuit that is half-open by the calls
before it, and no other. -/
def sinceClose (s : BreakerSettings) : List Stamp → List Stamp
  | [] => []
  | c :: older =>
    if c.call = .success ∧ stateOf s (sinceClose s older) = .halfOpen then []
    else c :: sinceClose s older

/-! ### The parts of a history -/

private theorem one_le_threshold (s : BreakerSettings) : 1 ≤ s.threshold := Nat.le_max_left _ _

/-- Whoever asked after the timeout had lapsed stands somewhere among the calls. -/
theorem probed_iff (s : BreakerSettings) (l : List Stamp) :
    probed s l = true ↔ ∃ later t before f, l = later ++ ⟨t, .ask⟩ :: before ∧
      s.threshold ≤ failureCount before ∧ latestFailure? before = some f ∧
      f.toNanos + s.timeout.toNanos < t.toNanos := by
  induction l with
  | nil =>
    constructor
    · intro h
      exact absurd h Bool.false_ne_true
    · rintro ⟨later, t, before, f, h, -⟩
      exact absurd h.symm (List.append_ne_nil_of_right_ne_nil _ (List.cons_ne_nil _ _))
  | cons c rest ih =>
    obtain ⟨time, call⟩ := c
    rw [probed, Bool.or_eq_true, ih]
    constructor
    · rintro (⟨later, t, before, f, rfl, h⟩ | h)
      · exact ⟨⟨time, call⟩ :: later, t, before, f, rfl, h⟩
      · rw [Bool.and_eq_true, decide_eq_true_eq, lapsed, Bool.and_eq_true, decide_eq_true_eq,
          Option.any_eq_true] at h
        obtain ⟨rfl, hn, f, hf, ht⟩ := h
        exact ⟨[], time, rest, f, rfl, hn, hf, of_decide_eq_true ht⟩
    · rintro ⟨later, t, before, f, heq, hn, hf, ht⟩
      cases later with
      | nil =>
        rw [List.nil_append, List.cons.injEq, Stamp.mk.injEq] at heq
        obtain ⟨⟨rfl, rfl⟩, rfl⟩ := heq
        right
        rw [Bool.and_eq_true, decide_eq_true_eq, lapsed, Bool.and_eq_true, decide_eq_true_eq,
          Option.any_eq_true]
        exact ⟨rfl, hn, f, hf, decide_eq_true ht⟩
      | cons x later =>
        rw [List.cons_append, List.cons.injEq] at heq
        exact .inl ⟨later, t, before, f, heq.2, hn, hf, ht⟩

/-- Nobody is let through to probe before the threshold is reached. -/
theorem threshold_le_of_probed (s : BreakerSettings) (l : List Stamp) (h : probed s l = true) :
    s.threshold ≤ failureCount l := by
  obtain ⟨later, t, before, f, rfl, hn, -⟩ := (probed_iff s l).mp h
  rw [failureCount, List.countP_append, List.countP_cons]
  exact Nat.le_trans hn (by rw [failureCount]; omega)

/-- If there is a failure since the last close, the latest of them is the latest of all. -/
theorem latestFailure?_sinceClose (s : BreakerSettings) (l : List Stamp)
    (h : 0 < failureCount (sinceClose s l)) :
    latestFailure? (sinceClose s l) = latestFailure? l := by
  induction l with
  | nil => rfl
  | cons c older ih =>
    rw [sinceClose] at h ⊢
    split at h
    · exact absurd h (Nat.lt_irrefl 0)
    · next hc =>
      rw [if_neg hc]
      by_cases hf : c.call = .failure
      · simp only [latestFailure?, List.find?_cons, hf, decide_true]
      · simp only [latestFailure?, failureCount, List.find?_cons, List.countP_cons, hf,
          decide_false, Bool.false_eq_true, if_false, Nat.add_zero] at h ih ⊢
        exact ih h

/-- A dated failure is one of the calls. -/
theorem mem_of_latestFailure? {l : List Stamp} {f : Time.Instant}
    (h : latestFailure? l = some f) : ⟨f, .failure⟩ ∈ l := by
  obtain ⟨x, hx, rfl⟩ := Option.map_eq_some_iff.mp h
  have hc := List.find?_some hx
  rw [decide_eq_true_eq] at hc
  rw [← hc]
  exact List.mem_of_find?_eq_some hx

/-- Where a failure was counted, one is dated. -/
theorem latestFailure?_isSome {l : List Stamp} (h : 0 < failureCount l) :
    ∃ f, latestFailure? l = some f := by
  obtain ⟨x, hx, hc⟩ := List.countP_pos_iff.mp h
  have hs : (l.find? (·.call = .failure)).isSome = true := List.find?_isSome.mpr ⟨x, hx, hc⟩
  obtain ⟨y, hy⟩ := Option.isSome_iff_exists.mp hs
  exact ⟨y.time, by rw [latestFailure?, hy]; rfl⟩

/-- No call of a run is later than its end. -/
theorem stamped_time_le (start : Time.Instant) (h : History) (x : Stamp)
    (hx : x ∈ stamped start h) : x.time.toNanos ≤ (clockFrom start h).toNanos := by
  induction h with
  | nil => exact absurd hx (List.not_mem_nil)
  | cons c h ih =>
    have hle := clockFrom_le_cons start c h
    rcases List.mem_cons.mp hx with rfl | hx
    · exact hle
    · exact Int.le_trans (ih hx) hle

/-! ### The invariant -/

/-- The breaker is what the calls, with their moments, say it is. -/
structure Agrees (s : BreakerSettings) (l : List Stamp) (b : Breaker) : Prop where
  settings : b.settings = s
  failures : b.failures = min (failureCount (sinceClose s l)) limit
  state : b.state = stateOf s (sinceClose s l)
  lastFailure : b.lastFailure? = latestFailure? l

private theorem stateOf_eq_closed_iff (s : BreakerSettings) (l : List Stamp) :
    stateOf s l = .closed ↔ failureCount l < s.threshold := by
  unfold stateOf
  split
  · next h => exact iff_of_true rfl h
  · next h => split <;> exact iff_of_false (by decide) h

private theorem stateOf_eq_halfOpen_iff (s : BreakerSettings) (l : List Stamp) :
    stateOf s l = .halfOpen ↔ probed s l = true := by
  unfold stateOf
  split
  · next h =>
    apply iff_of_false (by decide)
    intro hp
    exact absurd (threshold_le_of_probed s l hp) (Nat.not_le_of_lt h)
  · split
    · next hp => exact iff_of_true rfl hp
    · next hp => exact iff_of_false (by decide) hp

private theorem failureCount_cons (x : Stamp) (l : List Stamp) :
    failureCount (x :: l) = failureCount l + if x.call = .failure then 1 else 0 := by
  simp only [failureCount, List.countP_cons, decide_eq_true_eq]

private theorem stateOf_cons_failure (s : BreakerSettings) (t : Time.Instant) (l : List Stamp) :
    stateOf s (⟨t, .failure⟩ :: l) =
      if stateOf s l = .closed ∧ s.threshold ≤ failureCount l + 1 then .open else stateOf s l := by
  have hn : failureCount (⟨t, .failure⟩ :: l) = failureCount l + 1 := failureCount_cons _ _
  have hp : probed s (⟨t, .failure⟩ :: l) = probed s l := Bool.or_false _
  by_cases hc : failureCount l < s.threshold
  · have hclosed : stateOf s l = .closed := (stateOf_eq_closed_iff s l).mpr hc
    have hnp : ¬ probed s l = true := fun h =>
      absurd (threshold_le_of_probed s l h) (Nat.not_le_of_lt hc)
    by_cases ht : s.threshold ≤ failureCount l + 1
    · rw [if_pos ⟨hclosed, ht⟩, stateOf, hn, hp, if_neg (Nat.not_lt_of_le ht), if_neg hnp]
    · rw [if_neg (fun h => ht h.2), hclosed, stateOf_eq_closed_iff, hn]
      exact Nat.lt_of_not_le ht
  · have ht : ¬ failureCount l + 1 < s.threshold := by omega
    rw [if_neg (fun h => hc ((stateOf_eq_closed_iff s l).mp h.1)), stateOf, stateOf, hn, hp,
      if_neg ht, if_neg hc]

private theorem stateOf_cons_ask (s : BreakerSettings) (t : Time.Instant) (l : List Stamp) :
    stateOf s (⟨t, .ask⟩ :: l) =
      if stateOf s l = .open ∧ lapsed s t l = true then .halfOpen else stateOf s l := by
  have hn : failureCount (⟨t, .ask⟩ :: l) = failureCount l := failureCount_cons _ _
  have hp : probed s (⟨t, .ask⟩ :: l) = (probed s l || lapsed s t l) := rfl
  unfold stateOf
  rw [hn, hp]
  by_cases hc : failureCount l < s.threshold
  · rw [if_pos hc, if_pos hc, if_neg (fun h => absurd h.1 (by decide))]
  · cases hpl : probed s l <;> cases hll : lapsed s t l <;> simp [hc]

private theorem stateOf_cons_other (s : BreakerSettings) (x : Stamp) (l : List Stamp)
    (hf : x.call ≠ .failure) (ha : x.call ≠ .ask) : stateOf s (x :: l) = stateOf s l := by
  have hn : failureCount (x :: l) = failureCount l := by
    rw [failureCount_cons, if_neg hf, Nat.add_zero]
  have hp : probed s (x :: l) = probed s l := by
    rw [probed, decide_eq_false ha, Bool.false_and, Bool.or_false]
  unfold stateOf
  rw [hn, hp]

private theorem recoveryDue_eq_lapsed {s : BreakerSettings} {l : List Stamp} {b : Breaker}
    (h : Agrees s l b) (t : Time.Instant) (ho : stateOf s (sinceClose s l) = .open) :
    b.recoveryDue t = lapsed s t (sinceClose s l) := by
  have hn : s.threshold ≤ failureCount (sinceClose s l) := by
    apply Nat.le_of_not_lt
    intro hlt
    rw [(stateOf_eq_closed_iff s _).mpr hlt] at ho
    exact absurd ho (by decide)
  have hpos : 0 < failureCount (sinceClose s l) := Nat.lt_of_lt_of_le (one_le_threshold s) hn
  obtain ⟨f, hf⟩ := latestFailure?_isSome hpos
  have hlast : b.lastFailure? = some f := by
    rw [h.lastFailure, ← latestFailure?_sinceClose s l hpos, hf]
  rw [recoveryDue, hlast, lapsed, hf, h.settings, decide_eq_true hn, Bool.true_and,
    Option.any_some]
  exact decide_eq_decide.mpr (by omega)

private theorem Agrees.quiet {s : BreakerSettings} {l : List Stamp} {b : Breaker}
    (h : Agrees s l b) (x : Stamp) (hf : x.call ≠ .failure) (ha : x.call ≠ .ask)
    (hk : sinceClose s (x :: l) = x :: sinceClose s l) : Agrees s (x :: l) b where
  settings := h.settings
  failures := by rw [hk, failureCount_cons, if_neg hf, Nat.add_zero, h.failures]
  state := by rw [hk, stateOf_cons_other s x _ hf ha, h.state]
  lastFailure := by
  -- A call that closes nothing, and is neither a failure nor a question, leaves the breaker in
  -- agreement as it is.
    rw [h.lastFailure, latestFailure?, latestFailure?, List.find?_cons, decide_eq_false hf]

private theorem sinceClose_cons (s : BreakerSettings) (l : List Stamp) (t : Time.Instant)
    {c : Call} (hc : c ≠ .success) : sinceClose s (⟨t, c⟩ :: l) = ⟨t, c⟩ :: sinceClose s l := by
  rw [sinceClose, if_neg (fun h => hc h.1)]

private theorem Agrees.recordFailure {s : BreakerSettings} {l : List Stamp} {b : Breaker}
    (h : Agrees s l b) (hs : s.maxFailures ≤ limit) (t : Time.Instant) :
    Agrees s (⟨t, .failure⟩ :: l) (b.recordFailure t).1 := by
  obtain ⟨hset, hfail, hstate, -⟩ := h
  have hlimit : 1 ≤ limit := by decide
  have hcons := sinceClose_cons s l t (c := .failure) (by simp)
  -- The count of the breaker stops at the limit, but no threshold is beyond it.
  have hiff : b.settings.maxFailures ≤ min (b.failures + 1) limit ↔
      s.threshold ≤ failureCount (sinceClose s l) + 1 := by
    rw [hset, hfail, BreakerSettings.threshold]
    omega
  rw [recordFailure_fst]
  refine ⟨hset, ?_, ?_, ?_⟩
  · rw [hcons, failureCount_cons, if_pos rfl]
    change min (b.failures + 1) limit = _
    omega
  · rw [hcons, stateOf_cons_failure, ← hstate]
    simp only [hiff]
  · simp only [latestFailure?, List.find?_cons, decide_true, Option.map_some]

private theorem Agrees.recordSuccess {s : BreakerSettings} {l : List Stamp} {b : Breaker}
    (h : Agrees s l b) (t : Time.Instant) :
    Agrees s (⟨t, .success⟩ :: l) b.recordSuccess.1 := by
  rw [recordSuccess_fst]
  by_cases hh : b.state = .halfOpen
  · have hnil : sinceClose s (⟨t, .success⟩ :: l) = [] := by
      unfold sinceClose
      rw [if_pos ⟨rfl, h.state ▸ hh⟩]
    rw [if_pos hh]
    refine ⟨h.settings, ?_, ?_, h.lastFailure⟩
    · rw [hnil]
      rfl
    · rw [hnil, (stateOf_eq_closed_iff s []).mpr (one_le_threshold s)]
  · have hkeep : sinceClose s (⟨t, .success⟩ :: l) = ⟨t, .success⟩ :: sinceClose s l := by
      rw [sinceClose, if_neg (fun hc => hh (h.state ▸ hc.2))]
    rw [if_neg hh]
    exact h.quiet ⟨t, .success⟩ (by simp) (by simp) hkeep

private theorem Agrees.canExecute {s : BreakerSettings} {l : List Stamp} {b : Breaker}
    (h : Agrees s l b) (t : Time.Instant) :
    Agrees s (⟨t, .ask⟩ :: l) (b.canExecute t).2.1 := by
  obtain ⟨hset, hfail, hstate, hlast⟩ := h
  have hcons := sinceClose_cons s l t (c := .ask) (by simp)
  have hcount : b.failures = min (failureCount (sinceClose s (⟨t, .ask⟩ :: l))) limit := by
    rw [hcons, failureCount_cons, if_neg (by simp), Nat.add_zero, hfail]
  rw [canExecute_breaker]
  by_cases ho : b.state = .open
  · have hdue := recoveryDue_eq_lapsed ⟨hset, hfail, hstate, hlast⟩ t (hstate ▸ ho)
    by_cases hd : b.recoveryDue t = true
    · rw [if_pos ⟨ho, hd⟩]
      refine ⟨hset, hcount, ?_, hlast⟩
      rw [hcons, stateOf_cons_ask, if_pos ⟨hstate ▸ ho, hdue ▸ hd⟩]
    · rw [if_neg (fun h => hd h.2)]
      refine ⟨hset, hcount, ?_, hlast⟩
      rw [hcons, stateOf_cons_ask, if_neg (fun h => hd (hdue ▸ h.2)), hstate]
  · rw [if_neg (fun h => ho h.1)]
    refine ⟨hset, hcount, ?_, hlast⟩
    rw [hcons, stateOf_cons_ask, if_neg (fun h => ho (hstate ▸ h.1)), hstate]

/-- Every call keeps the agreement, with itself added to the calls. -/
theorem Agrees.apply {s : BreakerSettings} {l : List Stamp} {b : Breaker} (h : Agrees s l b)
    (hs : s.maxFailures ≤ limit) (t : Time.Instant) (c : Call) :
    Agrees s (⟨t, c⟩ :: l) (c.apply t b).1 := by
  cases c with
  | failure => exact h.recordFailure hs t
  | success => exact h.recordSuccess t
  | ask => exact h.canExecute t
  | setObserver o? =>
    have hq := h.quiet ⟨t, .setObserver o?⟩ (by simp) (by simp) (sinceClose_cons s l t (by simp))
    exact ⟨hq.settings, hq.failures, hq.state, hq.lastFailure⟩
  | onChange tag =>
    have hq := h.quiet ⟨t, .onChange tag⟩ (by simp) (by simp) (sinceClose_cons s l t (by simp))
    exact ⟨hq.settings, hq.failures, hq.state, hq.lastFailure⟩
  | advance span =>
    exact h.quiet ⟨t, .advance span⟩ (by simp) (by simp) (sinceClose_cons s l t (by simp))

/-- A breaker agrees with its history after every run. -/
theorem agrees_runFrom (name : String) (s : BreakerSettings) (hs : s.maxFailures ≤ limit)
    (start : Time.Instant) (h : History) :
    Agrees s (stamped start h) (runFrom start (new name s) h) := by
  induction h with
  | nil => exact ⟨rfl, rfl, ((stateOf_eq_closed_iff s []).mpr (one_le_threshold s)).symm, rfl⟩
  | cons c h ih => exact ih.apply hs (clockFrom start h) c

/-! ### What the history says of the breaker -/

/-- A breaker that refuses has failed not longer ago than the timeout. -/
theorem failed_of_refused {s : BreakerSettings} {l : List Stamp} {b : Breaker}
    (h : Agrees s l b) (t : Time.Instant) (hr : (b.canExecute t).1 = false) :
    ∃ f, ⟨f, .failure⟩ ∈ l ∧ t.toNanos ≤ f.toNanos + s.timeout.toNanos := by
  rw [canExecute_fst, Bool.not_eq_false', Bool.and_eq_true, Bool.not_eq_true'] at hr
  obtain ⟨-, hd⟩ := hr
  cases hl : b.lastFailure? with
  | none => simp [recoveryDue, hl] at hd
  | some f =>
    rw [recoveryDue, hl] at hd
    have hle : ¬ ((b.settings.timeout.toNanos : Int) < t.toNanos - f.toNanos) :=
      of_decide_eq_false hd
    rw [h.settings] at hle
    exact ⟨f, mem_of_latestFailure? (h.lastFailure ▸ hl), by omega⟩

/-- At every point of every run a new breaker is what its history says. It has counted the failures
since the last close, up to the largest number of thirty-two bits. It is closed while these are
fewer than the threshold; from then on it is half-open if somebody asked, when the threshold had
been reached, more than the timeout after the latest failure, and else open. A question is refused
exactly if the circuit is open with the question taken into account, and then a failure is not
longer ago than the timeout. An open circuit knows of a last failure. -/
theorem runFrom_eq_history (name : String) (maxFailures : UInt32) (timeout : Time.Span)
    (start : Time.Instant) (h : History) :
    let s : BreakerSettings := ⟨maxFailures.toNat, timeout⟩
    let b := runFrom start (new name s) h
    let now := clockFrom start h
    let l := sinceClose s (stamped start h)
    b.failures = min (failureCount l) 0xFFFFFFFF ∧
    (b.state = .closed ↔ failureCount l < max 1 maxFailures.toNat) ∧
    (b.state = .halfOpen ↔ ∃ later t before f, l = later ++ ⟨t, .ask⟩ :: before ∧
      max 1 maxFailures.toNat ≤ failureCount before ∧ latestFailure? before = some f ∧
      f.toNanos + timeout.toNanos < t.toNanos) ∧
    ((b.canExecute now).1 = false ↔
      stateOf s (sinceClose s (stamped start (.ask :: h))) = .open) ∧
    ((b.canExecute now).1 = false → ∃ f, ⟨f, .failure⟩ ∈ stamped start h ∧
      f.toNanos ≤ now.toNanos ∧ now.toNanos ≤ f.toNanos + timeout.toNanos) ∧
    (b.state = .open → b.lastFailure?.isSome = true) := by
  intro s b now l
  have hs : s.maxFailures ≤ limit := Nat.le_sub_one_of_lt maxFailures.toNat_lt
  have ha : Agrees s (stamped start h) b := agrees_runFrom name s hs start h
  have hasked : Agrees s (stamped start (.ask :: h)) (b.canExecute now).2.1 :=
    agrees_runFrom name s hs start (.ask :: h)
  refine ⟨ha.failures, ?_, ?_, ?_, ?_, ?_⟩
  · rw [ha.state, stateOf_eq_closed_iff, BreakerSettings.threshold]
  · rw [ha.state, stateOf_eq_halfOpen_iff, probed_iff, BreakerSettings.threshold]
  · rw [← hasked.state, canExecute_fst, canExecute_breaker]
    by_cases ho : b.state = .open
    · cases hd : b.recoveryDue now <;> simp [ho]
    · simp [ho]
  · intro hr
    obtain ⟨f, hf, hle⟩ := failed_of_refused ha now hr
    exact ⟨f, hf, stamped_time_le start h _ hf, hle⟩
  · intro ho
    have hn : ¬ failureCount l < s.threshold := by
      rw [← stateOf_eq_closed_iff, ← ha.state, ho]
      decide
    have hpos : 0 < failureCount l := by
      have := one_le_threshold s
      omega
    obtain ⟨f, hf⟩ := latestFailure?_isSome hpos
    rw [ha.lastFailure, ← latestFailure?_sinceClose s _ hpos, hf]
    rfl

end Breaker

end Mishap
