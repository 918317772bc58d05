import Mishap.Proofs.Store.Nearest

/-!
# Attempts

The bookkeeping of an error counts its attempts up to a limit and keeps everything else, until it is
itself written again (`retryInfo?_after`). So no more attempts are ever granted than were left, and
once none is left none is granted again, at the limit too (`granted_of_loop`,
`budgeted_of_decorated`).
-/

namespace Mishap

namespace RetryInfo

/-- Both numbers fit where attempts are counted. -/
structure Valid (info : RetryInfo) : Prop where
  current : info.currentAttempt ≤ limit
  max : info.maxAttempts ≤ limit

/-- The bookkeeping after attempts at these moments, the newest first. -/
def attempted (times : List Time.Instant) (info : RetryInfo) : RetryInfo :=
  { info with
    currentAttempt := min (info.currentAttempt + times.length) limit
    lastAttempt := times.head?.getD info.lastAttempt }

/-- Attempts that are counted one after the other are counted together. -/
theorem foldr_increment {info : RetryInfo} (h : info.currentAttempt ≤ limit)
    (times : List Time.Instant) :
    times.foldr increment info = info.attempted times := by
  induction times with
  | nil =>
    have hcurrent : min info.currentAttempt limit = info.currentAttempt := Nat.min_eq_left h
    simp [attempted, hcurrent]
  | cons now times ih =>
    have hcount : min (min (info.currentAttempt + times.length) limit + 1) limit =
        min (info.currentAttempt + (times.length + 1)) limit := by omega
    simp [ih, increment, attempted, hcount]

/-- Where the numbers fit, attempts are left after some exactly if fewer were made than were left
before. -/
theorem hasAttemptsLeft_attempted {info : RetryInfo} (h : info.Valid) (times : List Time.Instant) :
    (info.attempted times).hasAttemptsLeft = true ↔
      times.length < info.maxAttempts - info.currentAttempt := by
  have hmax := h.max
  rw [hasAttemptsLeft, decide_eq_true_iff]
  show min (info.currentAttempt + times.length) limit < info.maxAttempts ↔ _
  omega

end RetryInfo

namespace Decorated

/-- An attempt is granted exactly if attempts are kept and left and their rule holds. -/
theorem canRetry_of_retryInfo? {d : Decorated} {info : RetryInfo} (h : d.retryInfo? = some info)
    (text : String) :
    d.canRetry text = true ↔ info.hasAttemptsLeft = true ∧ d.satisfies text info.rule = true := by
  simp [canRetry, h]

end Decorated

namespace Store

variable {h g later : History} {r : Ref} {d : Decorated}

/-! ### Runs that leave the bookkeeping alone -/

/-- A run writes no entry under the key of the bookkeeping of an error. -/
def Unwritten (r : Ref) (later : History) : Prop :=
  ∀ a ∈ later, a.writes? r Metadata.retryKey = none

instance (r : Ref) (later : History) : Decidable (Unwritten r later) :=
  decidable_of_iff (∀ a ∈ later, (a.writes? r Metadata.retryKey).isNone)
    (forall₂_congr fun _ _ => Option.isNone_iff_eq_none)

private theorem unwritten_cons {a : Action} :
    Unwritten r (a :: later) ↔ a.writes? r Metadata.retryKey = none ∧ Unwritten r later :=
  List.forall_mem_cons

private theorem unwritten_append : Unwritten r (later ++ h) ↔ Unwritten r later ∧ Unwritten r h :=
  List.forall_mem_append

/-- The moments at which a run counts attempts of an error, the newest first. -/
def increments (r : Ref) (later : History) : List Time.Instant :=
  later.filterMap (Action.counts? r)

private theorem increments_append (r : Ref) (later h : History) :
    increments r (later ++ h) = increments r later ++ increments r h :=
  List.filterMap_append

/-- An action that does not write the bookkeeping counts an attempt or leaves it. -/
theorem retryInfo?_revise {a : Action} (ha : a.writes? r Metadata.retryKey = none)
    (d : Decorated) :
    (a.revise r d).retryInfo? =
      d.retryInfo?.map ((a.counts? r).toList.foldr RetryInfo.increment) := by
  have hentry := metadata?_revise a r d Metadata.retryKey
  rw [ha, Option.none_or, if_pos rfl] at hentry
  rw [Decorated.retryInfo?, Decorated.retryInfo?, hentry]
  cases d.metadata? Metadata.retryKey with
  | none => rfl
  | some m =>
    cases a.counts? r with
    | none => cases m <;> rfl
    | some now => cases m <;> rfl

/-- Until it is written again, the bookkeeping of an error changes by its attempts alone. -/
theorem retryInfo?_after (hp : Possible (later ++ h)) (hw : Unwritten r later)
    (hd : (after h).decorated? r = some d) :
    ∃ d', (after (later ++ h)).decorated? r = some d' ∧
      d'.retryInfo? = d.retryInfo?.map ((increments r later).foldr RetryInfo.increment) := by
  induction later with
  | nil => exact ⟨d, hd, by simp [increments]⟩
  | cons a later ih =>
    obtain ⟨ha, hw⟩ := unwritten_cons.mp hw
    obtain ⟨d', hd', hinfo⟩ := ih hp.1 hw
    have hcons : Possible (a :: (later ++ h)) := hp
    have hlt := lt_next_of_body? (decorated?_eq_some_iff.mp hd')
    refine ⟨a.revise r d', ?_, ?_⟩
    · rw [List.cons_append, decorated?_cons hcons hlt, hd', Option.map_some]
    · rw [retryInfo?_revise ha, hinfo, Option.map_map]
      congr 1
      funext info
      rw [increments, increments, List.filterMap_cons]
      cases a.counts? r <;> rfl

/-- What an error with bookkeeping has after a run that leaves that alone. -/
theorem attempted_after (hp : Possible (later ++ h)) (hw : Unwritten r later)
    (hd : (after h).decorated? r = some d) {info : RetryInfo} (hinfo : d.retryInfo? = some info)
    (hv : info.Valid) :
    ∃ d', (after (later ++ h)).decorated? r = some d' ∧
      d'.retryInfo? = some (info.attempted (increments r later)) := by
  obtain ⟨d', hd', hinfo'⟩ := retryInfo?_after hp hw hd
  refine ⟨d', hd', ?_⟩
  rw [hinfo', hinfo, Option.map_some, RetryInfo.foldr_increment hv.current]

/-! ### Loops over attempts -/

/-- A meaning of the rules: which of them hold of which errors. -/
abbrev Rules := Store → Ref → RetryRule → Bool

/-- The meaning that the rules have in fact. -/
def satisfies : Rules := fun s r rule => (s.decorated? r).any (·.satisfies (s.text r) rule)

/-- Another attempt of an error is granted, if the rules have that meaning. -/
def Granted (rules : Rules) (g : History) (r : Ref) : Prop :=
  ∃ d info, (after g).decorated? r = some d ∧ d.retryInfo? = some info ∧
    info.hasAttemptsLeft = true ∧ rules (after g) r info.rule = true

private theorem granted_iff {rules : Rules} (hd : (after g).decorated? r = some d)
    {info : RetryInfo}
    (hinfo : d.retryInfo? = some info) :
    Granted rules g r ↔ info.hasAttemptsLeft = true ∧ rules (after g) r info.rule = true := by
  constructor
  · rintro ⟨d', info', hd', hinfo', hleft, hrule⟩
    cases hd.symm.trans hd'
    cases hinfo.symm.trans hinfo'
    exact ⟨hleft, hrule⟩
  · rintro ⟨hleft, hrule⟩
    exact ⟨d, info, hd, hinfo, hleft, hrule⟩

/-- With the meaning that the rules have in fact, an attempt is granted if the error can be
retried. -/
theorem granted_satisfies_iff (hd : (after g).decorated? r = some d) :
    Granted satisfies g r ↔ d.canRetry ((after g).text r) = true := by
  cases hinfo : d.retryInfo? with
  | none =>
    have hcan : d.canRetry ((after g).text r) = false := by simp [Decorated.canRetry, hinfo]
    rw [hcan]
    refine iff_of_false ?_ Bool.false_ne_true
    rintro ⟨d', info, hd', hinfo', -⟩
    cases hd.symm.trans hd'
    exact absurd (hinfo.symm.trans hinfo') nofun
  | some info =>
    rw [granted_iff hd hinfo, Decorated.canRetry_of_retryInfo? hinfo, satisfies, hd,
      Option.any_some]

/-- A loop over the attempts of an error that goes on from a run: so many were granted, and after
each an attempt was counted before the next one was asked for. What else is done in between leaves
the bookkeeping alone. -/
inductive Loop (rules : Rules) (r : Ref) (h : History) : History → Nat → Prop
  | start : Loop rules r h h 0
  | other {g : History} {n : Nat} {a : Action} : Loop rules r h g n →
      a.writes? r Metadata.retryKey = none → Loop rules r h (a :: g) n
  | granted {g between : History} {n : Nat} {now : Time.Instant} : Loop rules r h g n →
      Granted rules g r → Unwritten r between →
      Loop rules r h (.edit r (.increment now) :: (between ++ g)) (n + 1)

variable {rules : Rules}

/-- A loop is a run that leaves the bookkeeping alone and counts each granted attempt. -/
theorem Loop.exists_append {n : Nat} (hl : Loop rules r h g n) :
    ∃ later, g = later ++ h ∧ Unwritten r later ∧ n ≤ (increments r later).length := by
  induction hl with
  | start => exact ⟨[], rfl, List.forall_mem_nil _, Nat.zero_le _⟩
  | @other g n a _ ha ih =>
    obtain ⟨later, rfl, hw, hn⟩ := ih
    refine ⟨a :: later, rfl, unwritten_cons.mpr ⟨ha, hw⟩, ?_⟩
    have hcounted : increments r (a :: later) = increments r [a] ++ increments r later :=
      increments_append r [a] later
    rw [hcounted, List.length_append]
    omega
  | @granted g between n now _ _ hbetween ih =>
    obtain ⟨later, rfl, hw, hn⟩ := ih
    have hwrites : (Action.edit r (.increment now)).writes? r Metadata.retryKey = none := by
      rw [Action.writes?, if_pos rfl]
      rfl
    have hcounted : increments r (.edit r (.increment now) :: (between ++ later)) =
        now :: (increments r between ++ increments r later) := by
      rw [← increments_append, increments, List.filterMap_cons, Action.counts?, if_pos rfl]
      rfl
    refine ⟨.edit r (.increment now) :: (between ++ later), by simp,
      unwritten_cons.mpr ⟨hwrites, unwritten_append.mpr ⟨hbetween, hw⟩⟩, ?_⟩
    rw [hcounted, List.length_cons, List.length_append]
    omega

/-- While an attempt is granted, fewer were counted than were left at first. -/
theorem length_lt_of_granted (hp : Possible (later ++ h)) (hw : Unwritten r later)
    (hd : (after h).decorated? r = some d) {info : RetryInfo} (hinfo : d.retryInfo? = some info)
    (hv : info.Valid) (hg : Granted rules (later ++ h) r) :
    (increments r later).length < info.maxAttempts - info.currentAttempt := by
  obtain ⟨d', hd', hinfo'⟩ := attempted_after hp hw hd hinfo hv
  have hleft := ((granted_iff hd' hinfo').mp hg).1
  exact (RetryInfo.hasAttemptsLeft_attempted hv _).mp hleft

/-- A loop is granted no more attempts than were left. -/
theorem granted_of_loop {n : Nat} (hp : Possible g) (hl : Loop rules r h g n)
    (hd : (after h).decorated? r = some d) {info : RetryInfo} (hinfo : d.retryInfo? = some info)
    (hv : info.Valid) : n ≤ info.maxAttempts - info.currentAttempt := by
  induction hl with
  | start => exact Nat.zero_le _
  | other _ _ ih => exact ih hp.1
  | granted hl hg _ ih =>
    -- When the last one was granted, all before it had been counted.
    have hp' := possible_of_append hp.1
    obtain ⟨later, rfl, hw, hn⟩ := hl.exists_append
    have hlt := length_lt_of_granted hp' hw hd hinfo hv hg
    omega

/-! ### Errors without bookkeeping -/

private theorem setDecorated_eq_self {s : Store} (hd : s.decorated? r = some d) :
    s.setDecorated r d = s := by
  have hb := decorated?_eq_some_iff.mp hd
  have hcells : s.cells.modify r (fun c => { c with body := .decorated d }) = s.cells := by
    apply modify_eq_of_fixed
    intro c hc
    have hbody : c.body = .decorated d := by simpa [body?, cell?, hc] using hb
    rw [← hbody]
  rw [setDecorated, setBody, hcells]

/-- Where no attempts are kept, counting one changes nothing. -/
theorem apply_increment_of_none {s : Store} (hd : s.decorated? r = some d)
    (hinfo : d.retryInfo? = none) (now : Time.Instant) :
    (Action.edit r (.increment now)).apply s = (s, []) := by
  have hedit : (Decorated.Edit.increment now).apply d = (d, []) := by
    rw [Decorated.Edit.apply, Decorated.Edit.perform, hinfo]
    rfl
  simp only [Action.apply, change, hd, hedit, setDecorated_eq_self hd]

/-! ### Budgets -/

/-- How the attempts of a decorated error go on after a run. -/
structure Budgeted (h : History) (r : Ref) (d : Decorated) : Prop where
  /-- Until its bookkeeping is written again, the attempts of the error are counted up to the limit,
  with the moment of the last one, and nothing else of the bookkeeping changes. Another attempt is
  granted while some are left and the rule holds of the error as it is then, whatever the rules
  mean. -/
  counted : ∀ info, d.retryInfo? = some info → info.Valid →
    ∀ later, Possible (later ++ h) → Unwritten r later →
      ∃ d', (after (later ++ h)).decorated? r = some d' ∧
        d'.retryInfo? = some
          { info with
            currentAttempt :=
              min (info.currentAttempt + (increments r later).length) RetryInfo.limit
            lastAttempt := (increments r later).head?.getD info.lastAttempt } ∧
        (∀ text, d'.canRetry text = true ↔
          min (info.currentAttempt + (increments r later).length) RetryInfo.limit <
              info.maxAttempts ∧
            d'.satisfies text info.rule = true) ∧
        ∀ rules, Granted rules (later ++ h) r ↔
          min (info.currentAttempt + (increments r later).length) RetryInfo.limit <
              info.maxAttempts ∧
            rules (after (later ++ h)) r info.rule = true
  /-- Whatever the rules mean, a loop is granted no more attempts than are left, the one it may be
  granted now included. -/
  granted : ∀ info, d.retryInfo? = some info → info.Valid →
    ∀ rules g n, Possible g → Loop rules r h g n →
      n ≤ info.maxAttempts - info.currentAttempt ∧
        (Granted rules g r → n < info.maxAttempts - info.currentAttempt)
  /-- Once none are left, none is granted again, at the limit too. -/
  exhausted : ∀ info, d.retryInfo? = some info → info.Valid →
    info.maxAttempts ≤ info.currentAttempt →
      ∀ rules later, Possible (later ++ h) → Unwritten r later → ¬ Granted rules (later ++ h) r
  /-- By the meaning that they have in fact, one is granted exactly if the error can be retried. -/
  satisfied : ∀ g e, (after g).decorated? r = some e →
    (Granted satisfies g r ↔ e.canRetry ((after g).text r) = true)
  /-- An attempt of another error, be it the cause or a wrapper of this one, leaves it as it is. -/
  others : ∀ q, q ≠ r → ∀ now, Possible (.edit q (.increment now) :: h) →
    (after (.edit q (.increment now) :: h)).decorated? r = some d
  /-- A wrapper that takes over from the error begins with the attempts that this has then. -/
  wrapped : ∀ cause message frames levels, Possible (.wrap cause message frames levels :: h) →
    (after h).nearest? cause = some r →
      ∃ w, (after (.wrap cause message frames levels :: h)).decorated? (after h).next = some w ∧
        w.retryInfo? = d.retryInfo?
  /-- Without bookkeeping no attempt is granted, and counting one changes nothing. -/
  unkept : d.retryInfo? = none →
    (∀ text, d.canRetry text = false) ∧
      ∀ now, (Action.edit r (.increment now)).apply (after h) = (after h, [])

/-- A decorated error keeps its account of attempts, whatever is done to others. -/
theorem budgeted_of_decorated (hd : (after h).decorated? r = some d) : Budgeted h r d where
  counted info hinfo hv later hlater hw := by
    obtain ⟨d', hd', hinfo'⟩ := attempted_after hlater hw hd hinfo hv
    have hleft : (info.attempted (increments r later)).hasAttemptsLeft = true ↔
        min (info.currentAttempt + (increments r later).length) RetryInfo.limit <
          info.maxAttempts := decide_eq_true_iff
    refine ⟨d', hd', hinfo', fun text => ?_, fun rules => ?_⟩
    · rw [Decorated.canRetry_of_retryInfo? hinfo', hleft]
      rfl
    · rw [granted_iff hd' hinfo', hleft]
      rfl
  granted info hinfo hv rules g n hg hl := by
    refine ⟨granted_of_loop hg hl hd hinfo hv, fun hgranted => ?_⟩
    obtain ⟨later, rfl, hw, hn⟩ := hl.exists_append
    have hlt := length_lt_of_granted hg hw hd hinfo hv hgranted
    omega
  exhausted info hinfo hv hspent rules later hlater hw hgranted := by
    have hlt := length_lt_of_granted hlater hw hd hinfo hv hgranted
    omega
  satisfied _ _ := granted_satisfies_iff
  others q hq now hlater := by
    have hunedited : ∀ e, .edit r e ∉ [Action.edit q (.increment now)] := by
      intro e he
      cases List.mem_singleton.mp he
      exact hq rfl
    have hcons : Possible ([.edit q (.increment now)] ++ h) := hlater
    exact decorated?_of_unedited hcons hunedited hd
  wrapped cause message frames levels hlater hn := by
    have hmade := decorated?_made (a := .wrap cause message frames levels) hlater.1 rfl
    refine ⟨_, hmade, ?_⟩
    rw [freshOver_of_nearest hn hd]
    rfl
  unkept hinfo :=
    ⟨fun text => by simp [Decorated.canRetry, hinfo], apply_increment_of_none hd hinfo⟩

/-- An error whose first attempt failed is wrapped, and the wrapper fails once more; then the error
turns out to be a failure of validation. -/
def retried : History :=
  [.edit 0 (.setContext (.new .validation .error ⟨3, 0⟩ "test" "form.rs" 7)),
    .edit 1 (.increment ⟨2, 0⟩), .wrap 0 "outer" [] 0, .edit 0 (.increment ⟨1, 0⟩),
    .edit 0 (.annotate Metadata.retryKey (.retry (.new 3 default ⟨0, 0⟩))),
    .decorate "root" [] 0]

/-- Attempts of a wrapper that took over an account from its cause. -/
theorem budgeted_retried :
    Possible retried ∧ ∃ d, (after retried).decorated? 1 = some d ∧
      (∃ info, d.retryInfo? = some info ∧ info.currentAttempt = 2 ∧ info.Valid) ∧
      Budgeted retried 1 d :=
  ⟨by decide, _, rfl, ⟨_, rfl, rfl, ⟨by decide, by decide⟩⟩,
    budgeted_of_decorated rfl⟩

example :
    [0, 1].map (fun r => ((after retried).decorated? r).map fun d =>
      (d.retryInfo?.map (·.currentAttempt), d.canRetry ((after retried).text r))) =
      [some (some 1, false), some (some 2, true)] := by
  decide

end Store

end Mishap
