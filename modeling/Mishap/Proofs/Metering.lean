import Mishap.Metrics
import Mishap.Proofs.Breaker.Announcements
import Mishap.Proofs.Dictionary
import Mishap.Proofs.Store.Notices

/-!
# What a meter shows

Errors and circuit breakers run side by side under one clock. All breakers have one meter as their
observer from the start on and keep it; errors have it if it was given to them or taken over by
wrapping. Then the meter mirrors the breakers and counts the reports of the errors
(`metered_of_possible`): it shows the present state of each circuit that was ever seen in a state
other than closed, and no other circuit, and its counters are the numbers of all changes of state
and of all reports, in sixty-four bits.
-/

namespace Mishap

/-! ### One effect -/

namespace Metrics

/-- A record is nothing to a meter. -/
theorem absorb_write (meter : String) (m : Metrics) (l : Logger) (c : Logger.Record) :
    absorb meter m (l.write c) = m := by
  cases l <;> rfl

/-- A meter stays as it is over effects that are nothing to it. -/
theorem foldl_absorb_eq_self {meter : String} {es : List Effect}
    (h : ∀ e ∈ es, ∀ m, absorb meter m e = m) (m : Metrics) : es.foldl (absorb meter) m = m := by
  induction es generalizing m with
  | nil => rfl
  | cons e es ih =>
    rw [List.foldl_cons, h e List.mem_cons_self]
    exact ih (fun f hf => h f (List.mem_cons_of_mem e hf)) m

private theorem ofEffects_append (meter : String) (es fs : List Effect) :
    ofEffects meter (es ++ fs) = fs.foldl (absorb meter) (ofEffects meter es) :=
  List.foldl_append

/-- A report is counted by the meter that observes the error. -/
theorem foldl_absorb_recordError (meter : String) (m : Metrics) (o : Observer) (t : String) :
    (o.recordError t).foldl (absorb meter) m =
      if o = .meter meter then { m with errors := m.errors + 1 } else m := by
  cases o <;> simp [Observer.recordError, absorb]

/-- A change of a circuit is counted by the meter that observes it, and becomes the state that the
meter shows. -/
theorem foldl_absorb_notices (meter name : String) (m : Metrics) {c : Breaker.Change}
    (hc : c.observer = .meter meter) (e : Event) {told : List Effect}
    (hears : c.observer.HearsChange name c.before c.after told) :
    (c.notices name e told).foldl (absorb meter) m =
      { m with
        transitions := m.transitions + 1
        states := Dictionary.insert name c.after m.states } := by
  have hcalled : ∀ m, (c.callback?.toList.map fun tag =>
      Effect.called tag name c.before c.after).foldl (absorb meter) m = m := by
    refine foldl_absorb_eq_self fun f hf m => ?_
    obtain ⟨tag, -, rfl⟩ := List.mem_map.mp hf
    rfl
  rw [hc] at hears
  cases hears
  rw [Breaker.Change.notices, List.foldl_append, hcalled]
  simp [absorb]

end Metrics

namespace Store.Action

/-- The action reports an error that the meter observes. -/
def isCounted (meter : String) (s : Store) : Action → Bool
  | report r => (s.decorated? r).any fun d => d.observer = .meter meter
  | _ => false

/-- Of what is done to errors, a meter counts the reports of those that it observes. -/
theorem foldl_absorb_apply (meter : String) (a : Action) (s : Store) (m : Metrics) :
    (a.apply s).2.foldl (Metrics.absorb meter) m =
      if a.isCounted meter s then { m with errors := m.errors + 1 } else m := by
  cases a with
  | edit r e =>
    change (s.change r e.apply).2.foldl _ _ = m
    rw [change]
    cases s.decorated? r with
    | none => rfl
    | some d =>
      refine Metrics.foldl_absorb_eq_self (fun f hf m => ?_) m
      rw [e.apply_snd] at hf
      obtain ⟨c, -, hf⟩ := List.mem_flatMap.mp hf
      obtain ⟨l, -, rfl⟩ := List.mem_map.mp hf
      exact Metrics.absorb_write meter m l c
  | report r =>
    change (s.report r).foldl _ _ = _
    rw [Store.report, isCounted]
    cases s.decorated? r with
    | none => rfl
    | some d =>
      have hlogged : ∀ m, (d.logger?.toList.map fun l => l.log .error "error occurred"
          (d.reportFields (d.cause?.map s.text))).foldl (Metrics.absorb meter) m = m := by
        refine Metrics.foldl_absorb_eq_self fun f hf m => ?_
        obtain ⟨l, -, rfl⟩ := List.mem_map.mp hf
        exact Metrics.absorb_write meter m l ⟨_, _, _⟩
      simp only [List.foldl_append, hlogged, Metrics.foldl_absorb_recordError, Option.any_some,
        decide_eq_true_eq]
  | takeGroup p =>
    change (s.takeGroup p).2.2.foldl _ _ = m
    rw [Store.takeGroup]
    split
    · dsimp only
      split <;> rfl
    · rfl
  | append r member? => cases member? <;> rfl
  | _ => rfl

end Store.Action

/-! ### Errors and circuits side by side -/

/-- Errors and circuit breakers, under one clock. -/
structure Site where
  store : Store
  breakers : List Breaker
  now : Time.Instant

namespace Site

/-- What can happen: an action on errors, a new breaker that the meter observes, and a call on a
breaker; time that passes does so for all of them. -/
inductive Action where
  | onErrors (a : Store.Action)
  | addBreaker (name : String) (settings : BreakerSettings)
  | call (i : Nat) (c : Breaker.Call)

/-- The names of the circuits with their states. -/
def circuits (s : Site) : List (String × CircuitState) := s.breakers.map fun b => (b.name, b.state)

/-- The state of a circuit. -/
def state? (s : Site) (i : Nat) : Option CircuitState := (s.circuits[i]?).map (·.2)

/-- The site after an action, and what the action lets others notice. -/
def Action.apply (meter : String) : Action → Site → Site × List Effect
  | onErrors a, s => ({ s with store := (a.apply s.store).1 }, (a.apply s.store).2)
  | addBreaker name settings, s =>
    let b := (Breaker.new name settings).setObserver (some (.meter meter))
    ({ s with breakers := s.breakers ++ [b] }, [])
  | call i c, s =>
    match s.breakers[i]? with
    | some b =>
      ({ s with
          breakers := s.breakers.set i (c.apply s.now b).1
          now := Breaker.clockFrom s.now [c] },
        (c.apply s.now b).2)
    | none => (s, [])

/-- A call leaves the meter in place. -/
def keepsMeter (meter : String) : Breaker.Call → Bool
  | .setObserver o? => o? = some (.meter meter)
  | _ => true

/-- What is done to errors is allowed there; a new breaker has a name of its own; and calls leave
the meter in place. -/
def Allowed (meter : String) (s : Site) : Action → Prop
  | .onErrors a => s.store.Allowed a
  | .addBreaker name _ => name ∉ s.circuits.map (·.1)
  | .call _ c => keepsMeter meter c = true

instance (meter : String) (s : Site) (a : Action) : Decidable (s.Allowed meter a) := by
  cases a <;> simp only [Allowed] <;> infer_instance

/-- Actions, the newest first. -/
abbrev History := List Action

variable (start : Time.Instant) (meter : String)

/-- The site after a run that began at a moment without errors and breakers. -/
def after : History → Site
  | [] => ⟨.empty, [], start⟩
  | a :: h => (a.apply meter (after h)).1

/-- What a run lets others notice, in the order in which it happens. -/
def effects : History → List Effect
  | [] => []
  | a :: h => effects h ++ (a.apply meter (after start meter h)).2

/-- Each action was allowed when it was taken. -/
def Possible : History → Prop
  | [] => True
  | a :: h => Possible h ∧ (after start meter h).Allowed meter a

instance Possible.decidable : (h : History) → Decidable (Possible start meter h)
  | [] => inferInstanceAs (Decidable True)
  | a :: h =>
    have := Possible.decidable h
    inferInstanceAs (Decidable (Possible start meter h ∧ (after start meter h).Allowed meter a))

/-- What the meter shows after a run. -/
def metrics (h : History) : Metrics := .ofEffects meter (effects start meter h)

/-- What was done to errors in a run. -/
def onErrors (h : History) : Store.History :=
  h.filterMap fun
    | .onErrors a => some a
    | _ => none

/-- A circuit has been seen in a state other than closed. -/
def HasLeft (h : History) (i : Nat) : Prop :=
  ∃ h₀, h₀ <:+ h ∧ ∃ state, (after start meter h₀).state? i = some state ∧ state ≠ .closed

/-- How many changes of state there were, of all circuits together. -/
def turns : History → Nat
  | [] => 0
  | a :: h =>
    let s := after start meter h
    turns h + (List.range s.circuits.length).countP fun i =>
      (after start meter (a :: h)).state? i ≠ s.state? i

/-- How many reports there were of errors that the meter observed at the time. -/
def reports : History → Nat
  | [] => 0
  | .onErrors (.report r) :: h =>
    reports h +
      if ((after start meter h).store.decorated? r).isSome ∧
          Store.observing (onErrors h) r = .meter meter then 1
      else 0
  | _ :: h => reports h

/-! ### One action -/

variable {start meter} {a : Action} {h : History}

private theorem metrics_cons (a : Action) (h : History) :
    metrics start meter (a :: h) =
      (a.apply meter (after start meter h)).2.foldl (Metrics.absorb meter)
        (metrics start meter h) :=
  Metrics.ofEffects_append meter _ _

/-- The errors are those after what was done to errors. -/
theorem store_after (hp : Possible start meter h) :
    (after start meter h).store = Store.after (onErrors h) ∧ Store.Possible (onErrors h) := by
  induction h with
  | nil => exact ⟨rfl, trivial⟩
  | cons a h ih =>
    obtain ⟨hstore, hpossible⟩ := ih hp.1
    cases a with
    | onErrors a =>
      have ha : (after start meter h).store.Allowed a := hp.2
      rw [hstore] at ha
      refine ⟨?_, hpossible, ha⟩
      change (a.apply (after start meter h).store).1 = _
      rw [hstore]
      rfl
    | addBreaker name settings => exact ⟨hstore, hpossible⟩
    | call i c =>
      refine ⟨?_, hpossible⟩
      rw [after, Action.apply]
      cases (after start meter h).breakers[i]? <;> exact hstore

/-- The meter observes every breaker. -/
theorem observer_after (hp : Possible start meter h) :
    ∀ b ∈ (after start meter h).breakers, b.observer = .meter meter := by
  induction h with
  | nil => exact fun b hb => absurd hb List.not_mem_nil
  | cons a h ih =>
    intro b hb
    cases a with
    | onErrors a => exact ih hp.1 b hb
    | addBreaker name settings =>
      rcases List.mem_append.mp hb with hb | hb
      · exact ih hp.1 b hb
      · rw [List.mem_singleton.mp hb]
        rfl
    | call i c =>
      rw [after, Action.apply] at hb
      cases hi : (after start meter h).breakers[i]? with
      | none => exact ih hp.1 b (by simpa [hi] using hb)
      | some b₀ =>
        rw [hi] at hb
        rcases List.mem_or_eq_of_mem_set hb with hb | rfl
        · exact ih hp.1 b hb
        · have hkeeps : keepsMeter meter c = true := hp.2
          rw [(Breaker.apply_listeners c _ b₀).1]
          cases c with
          | setObserver o? =>
            rw [of_decide_eq_true hkeeps]
            rfl
          | _ => exact ih hp.1 b₀ (List.mem_of_getElem? hi)

/-- The action reports an error that the meter observes. -/
def Action.isCounted (meter : String) (s : Site) : Action → Bool
  | onErrors a => a.isCounted meter s.store
  | _ => false

/-- What an action does to the circuits and to the meter, which counts it or not: the circuits stay
as they are; or there is a new one, which is closed; or one of them turns. -/
inductive Step (cs : List (String × CircuitState)) (m : Metrics) :
    Bool → List (String × CircuitState) → Metrics → Prop
  | quiet (counted : Bool) :
    Step cs m counted cs (if counted then { m with errors := m.errors + 1 } else m)
  | added {name : String} (new : name ∉ cs.map (·.1)) :
    Step cs m false (cs ++ [(name, .closed)]) m
  | turned {i : Nat} {name : String} {state : CircuitState} (there : cs[i]? = some (name, state)) :
    Step cs m false (cs.set i (name, state.next))
      { m with
        transitions := m.transitions + 1
        states := Dictionary.insert name state.next m.states }

private theorem step_cons (hp : Possible start meter (a :: h)) :
    Step (after start meter h).circuits (metrics start meter h)
      (a.isCounted meter (after start meter h)) (after start meter (a :: h)).circuits
      (metrics start meter (a :: h)) := by
  rw [metrics_cons]
  cases a with
  | onErrors a =>
    rw [Action.apply, Store.Action.foldl_absorb_apply]
    exact .quiet _
  | addBreaker name settings =>
    have hcircuits : (after start meter (.addBreaker name settings :: h)).circuits =
        (after start meter h).circuits ++ [(name, .closed)] := List.map_append
    rw [hcircuits]
    exact .added hp.2
  | call i c =>
    cases hb : (after start meter h).breakers[i]? with
    | none =>
      have hsame : Action.apply meter (.call i c) (after start meter h) =
          (after start meter h, []) := by rw [Action.apply, hb]
      rw [after, hsame]
      exact .quiet false
    | some b =>
      have hthere : (after start meter h).circuits[i]? = some (b.name, b.state) := by
        rw [circuits, List.getElem?_map, hb]
        rfl
      have hset : (after start meter (.call i c :: h)).circuits =
          (after start meter h).circuits.set i
            (b.name, (c.apply (after start meter h).now b).1.state) := by
        rw [after, Action.apply, hb, circuits, List.map_set,
          (Breaker.apply_name_settings c _ b).1]
        rfl
      have heffects : (Action.apply meter (.call i c) (after start meter h)).2 =
          (c.apply (after start meter h).now b).2 := by rw [Action.apply, hb]
      rw [hset, heffects]
      rcases Breaker.turns_apply c (after start meter h).now b with
        ⟨hs, he⟩ | ⟨hs, e, told, -, hears, he⟩
      · obtain ⟨hlt, heq⟩ := List.getElem?_eq_some_iff.mp hthere
        rw [he, hs, ← heq, List.set_getElem_self]
        exact .quiet false
      · rw [he, hs, Metrics.foldl_absorb_notices meter b.name _
          (observer_after hp.1 b (List.mem_of_getElem? hb)) e hears]
        exact .turned hthere

/-! ### Circuits that have left -/

private theorem hasLeft_cons (i : Nat) :
    HasLeft start meter (a :: h) i ↔
      HasLeft start meter h i ∨
        ∃ state, (after start meter (a :: h)).state? i = some state ∧ state ≠ .closed := by
  constructor
  · rintro ⟨h₀, hs, hleft⟩
    rcases List.suffix_cons_iff.mp hs with rfl | hs
    · exact .inr hleft
    · exact .inl ⟨h₀, hs, hleft⟩
  · rintro (⟨h₀, hs, hleft⟩ | hleft)
    · exact ⟨h₀, hs.trans (List.suffix_cons a h), hleft⟩
    · exact ⟨a :: h, List.suffix_rfl, hleft⟩

/-- A circuit that is not closed has left. -/
theorem hasLeft_of_ne_closed {i : Nat} {state : CircuitState}
    (hstate : (after start meter h).state? i = some state) (hne : state ≠ .closed) :
    HasLeft start meter h i :=
  ⟨h, List.suffix_rfl, state, hstate, hne⟩

/-- An action that keeps the state of a circuit does not make it leave. -/
theorem hasLeft_cons_of_same {i : Nat}
    (hsame : (after start meter (a :: h)).state? i = (after start meter h).state? i) :
    HasLeft start meter (a :: h) i ↔ HasLeft start meter h i := by
  rw [hasLeft_cons, hsame]
  constructor
  · rintro (hleft | ⟨state, hstate, hne⟩)
    · exact hleft
    · exact hasLeft_of_ne_closed hstate hne
  · exact .inl

/-- Only a circuit that is there can have left. -/
theorem lt_length_of_hasLeft (hp : Possible start meter h) {i : Nat}
    (hleft : HasLeft start meter h i) : i < (after start meter h).circuits.length := by
  have hthere : ∀ {h : History}, (∃ state, (after start meter h).state? i = some state ∧
      state ≠ .closed) → i < (after start meter h).circuits.length := by
    rintro h ⟨state, hstate, -⟩
    obtain ⟨e, he, -⟩ := Option.map_eq_some_iff.mp hstate
    exact (List.getElem?_eq_some_iff.mp he).1
  induction h with
  | nil =>
    obtain ⟨h₀, hs, hleft⟩ := hleft
    rw [List.suffix_nil.mp hs] at hleft
    exact hthere hleft
  | cons a h ih =>
    rcases (hasLeft_cons i).mp hleft with hleft | hleft
    · have hlt := ih hp.1 hleft
      have hstep := step_cons hp
      generalize (after start meter (a :: h)).circuits = cs, metrics start meter (a :: h) = m,
        a.isCounted meter (after start meter h) = counted at hstep ⊢
      cases hstep with
      | quiet _ => exact hlt
      | added _ =>
        rw [List.length_append]
        omega
      | turned _ =>
        rw [List.length_set]
        exact hlt
    · exact hthere hleft

/-! ### The meter -/

/-- What the meter shows of the circuits is right. -/
structure Mirrors (start : Time.Instant) (meter : String) (h : History) : Prop where
  distinct : ((after start meter h).circuits.map (·.1)).Nodup
  /-- It shows the state of a circuit that has left, and none of one that has not. -/
  shown : ∀ i name state, (after start meter h).circuits[i]? = some (name, state) →
    (HasLeft start meter h i → (metrics start meter h).state? name = some state) ∧
      (¬ HasLeft start meter h i → (metrics start meter h).state? name = none)
  /-- It shows no other circuit. -/
  known : ∀ name, ((metrics start meter h).state? name).isSome →
    name ∈ (after start meter h).circuits.map (·.1)
  turned : (metrics start meter h).transitions.toNat = turns start meter h % UInt64.size

private theorem state?_of_circuits {s : Site} {i : Nat} {name : String} {state : CircuitState}
    (h : s.circuits[i]? = some (name, state)) : s.state? i = some state := by
  rw [state?, h]
  rfl

section

variable {cs : List (String × CircuitState)} {i : Nat} {name : String} {state : CircuitState}

private theorem getElem?_names (h : cs[i]? = some (name, state)) :
    (cs.map (·.1))[i]? = some name := by
  rw [List.getElem?_map, h]
  rfl

private theorem names_set (h : cs[i]? = some (name, state)) (state' : CircuitState) :
    (cs.set i (name, state')).map (·.1) = cs.map (·.1) := by
  obtain ⟨hlt, heq⟩ := List.getElem?_eq_some_iff.mp (getElem?_names h)
  rw [List.map_set, ← heq, List.set_getElem_self]

private theorem eq_of_names (hdistinct : (cs.map (·.1)).Nodup) (h : cs[i]? = some (name, state))
    {j : Nat} {state' : CircuitState} (h' : cs[j]? = some (name, state')) : i = j := by
  have hlt := (List.getElem?_eq_some_iff.mp (getElem?_names h)).1
  exact (List.getElem?_inj hlt hdistinct).mp ((getElem?_names h).trans (getElem?_names h').symm)

end

private theorem turns_of_same (h' : ∀ i < (after start meter h).circuits.length,
    (after start meter (a :: h)).state? i = (after start meter h).state? i) :
    turns start meter (a :: h) = turns start meter h := by
  rw [turns, List.countP_eq_zero.mpr fun i hi => by simp [h' i (List.mem_range.mp hi)],
    Nat.add_zero]

private theorem turns_of_turned {i : Nat} (hlt : i < (after start meter h).circuits.length)
    (hi : (after start meter (a :: h)).state? i ≠ (after start meter h).state? i)
    (hother : ∀ j, i ≠ j →
      (after start meter (a :: h)).state? j = (after start meter h).state? j) :
    turns start meter (a :: h) = turns start meter h + 1 := by
  have hchanged : ∀ j, ((after start meter (a :: h)).state? j ≠
      (after start meter h).state? j) ↔ j = i := by
    intro j
    by_cases hij : i = j
    · subst hij
      exact iff_of_true hi rfl
    · exact iff_of_false (fun hne => hne (hother j hij)) (Ne.symm hij)
  have hcount : (List.range (after start meter h).circuits.length).countP (· = i) = 1 := by
    have hmem : i ∈ List.range (after start meter h).circuits.length := List.mem_range.mpr hlt
    rw [← List.count_eq_one_of_mem List.nodup_range hmem, List.count_eq_countP]
    rfl
  simp only [turns, hchanged, hcount]

private theorem mirrors_quiet (hm : Mirrors start meter h)
    (hcircuits : (after start meter (a :: h)).circuits = (after start meter h).circuits)
    (htransitions : (metrics start meter (a :: h)).transitions =
      (metrics start meter h).transitions)
    (hstates : (metrics start meter (a :: h)).states = (metrics start meter h).states) :
    Mirrors start meter (a :: h) := by
  have hsame : ∀ i, (after start meter (a :: h)).state? i = (after start meter h).state? i :=
    fun i => by rw [state?, hcircuits, state?]
  have hshows : ∀ name, (metrics start meter (a :: h)).state? name =
      (metrics start meter h).state? name := fun name => by
    rw [Metrics.state?, hstates, Metrics.state?]
  refine ⟨hcircuits ▸ hm.distinct, fun i name state hi => ?_, fun name hname => ?_, ?_⟩
  · rw [hasLeft_cons_of_same (hsame i), hshows]
    exact hm.shown i name state (hcircuits ▸ hi)
  · rw [hshows] at hname
    exact hcircuits ▸ hm.known name hname
  · rw [htransitions, turns_of_same fun i _ => hsame i]
    exact hm.turned

private theorem mirrors_added (hp : Possible start meter h) (hm : Mirrors start meter h)
    {name : String}
    (hnew : name ∉ (after start meter h).circuits.map (·.1))
    (hcircuits : (after start meter (a :: h)).circuits =
      (after start meter h).circuits ++ [(name, .closed)])
    (hmetrics : metrics start meter (a :: h) = metrics start meter h) :
    Mirrors start meter (a :: h) := by
  have hold : ∀ i < (after start meter h).circuits.length,
      (after start meter (a :: h)).state? i = (after start meter h).state? i := fun i hi => by
    rw [state?, hcircuits, List.getElem?_append_left hi, state?]
  refine ⟨?_, fun i name' state hi => ?_, fun name' hname => ?_, ?_⟩
  · rw [hcircuits, List.map_append]
    refine List.nodup_append.mpr ⟨hm.distinct, List.pairwise_singleton _ _, ?_⟩
    rintro x hx y hy rfl
    cases List.mem_singleton.mp hy
    exact hnew hx
  · rw [hmetrics]
    rw [hcircuits] at hi
    by_cases hlt : i < (after start meter h).circuits.length
    · rw [hasLeft_cons_of_same (hold i hlt)]
      exact hm.shown i name' state (by rwa [List.getElem?_append_left hlt] at hi)
    · have hle := Nat.le_of_not_lt hlt
      rw [List.getElem?_append_right hle, List.getElem?_singleton] at hi
      split at hi
      · cases hi
        -- The new circuit is closed, and its place was empty before.
        refine ⟨fun hleft => ?_, fun _ => ?_⟩
        · rcases (hasLeft_cons i).mp hleft with hleft | ⟨state, hstate, hne⟩
          · exact absurd (lt_length_of_hasLeft hp hleft) hlt
          · have hclosed : (after start meter (a :: h)).state? i = some .closed := by
              have heq : i = (after start meter h).circuits.length := by omega
              rw [state?, hcircuits, heq, List.getElem?_concat_length]
              rfl
            cases hstate.symm.trans hclosed
            exact absurd rfl hne
        · refine Option.eq_none_iff_forall_ne_some.mpr fun state hstate => hnew ?_
          exact hm.known name (by rw [hstate]; rfl)
      · exact absurd hi nofun
  · rw [hmetrics] at hname
    rw [hcircuits, List.map_append]
    exact List.mem_append_left _ (hm.known name' hname)
  · rw [hmetrics, turns_of_same hold]
    exact hm.turned

private theorem mirrors_turned (hm : Mirrors start meter h) {i : Nat} {name : String}
    {state : CircuitState} (hthere : (after start meter h).circuits[i]? = some (name, state))
    (hcircuits : (after start meter (a :: h)).circuits =
      (after start meter h).circuits.set i (name, state.next))
    (hmetrics : metrics start meter (a :: h) =
      { metrics start meter h with
        transitions := (metrics start meter h).transitions + 1
        states := Dictionary.insert name state.next (metrics start meter h).states }) :
    Mirrors start meter (a :: h) := by
  have hlt : i < (after start meter h).circuits.length :=
    (List.getElem?_eq_some_iff.mp hthere).1
  have hnames : (after start meter (a :: h)).circuits.map (·.1) =
      (after start meter h).circuits.map (·.1) := by
    rw [hcircuits, names_set hthere]
  have hturned : (after start meter (a :: h)).state? i = some state.next := by
    rw [state?, hcircuits, List.getElem?_set_self hlt]
    rfl
  have hother : ∀ j, i ≠ j →
      (after start meter (a :: h)).state? j = (after start meter h).state? j := fun j hne => by
    rw [state?, hcircuits, List.getElem?_set_ne hne, state?]
  have hshows : ∀ name', (metrics start meter (a :: h)).state? name' =
      if name = name' then some state.next else (metrics start meter h).state? name' := by
    intro name'
    rw [Metrics.state?, hmetrics, Dictionary.get?_insert, Metrics.state?]
  -- The circuit has left: it is not closed now, or it was not before.
  have hleft : HasLeft start meter (a :: h) i := by
    rw [hasLeft_cons]
    cases state with
    | closed => exact .inr ⟨.open, hturned, nofun⟩
    | «open» => exact .inr ⟨.halfOpen, hturned, nofun⟩
    | halfOpen => exact .inl (hasLeft_of_ne_closed (state?_of_circuits hthere) nofun)
  refine ⟨hnames ▸ hm.distinct, fun j name' state' hj => ?_, fun name' hname => ?_, ?_⟩
  · rw [hshows]
    by_cases hij : i = j
    · subst hij
      rw [hcircuits, List.getElem?_set_self hlt] at hj
      cases hj
      exact ⟨fun _ => if_pos rfl, fun hnot => absurd hleft hnot⟩
    · rw [hcircuits, List.getElem?_set_ne hij] at hj
      have hne : name ≠ name' := by
        rintro rfl
        exact hij (eq_of_names hm.distinct hthere hj)
      rw [hasLeft_cons_of_same (hother j hij), if_neg hne]
      exact hm.shown j name' state' hj
  · rw [hshows] at hname
    rw [hnames]
    by_cases heq : name = name'
    · subst heq
      exact List.mem_map.mpr ⟨_, List.mem_of_getElem? hthere, rfl⟩
    · rw [if_neg heq] at hname
      exact hm.known name' hname
  · have hchanged : (after start meter (a :: h)).state? i ≠ (after start meter h).state? i := by
      rw [hturned, state?_of_circuits hthere]
      exact fun heq => CircuitState.next_ne state (Option.some.inj heq)
    rw [hmetrics, turns_of_turned hlt hchanged hother, UInt64.toNat_add, hm.turned]
    simp [Nat.add_mod]

private theorem mirrors_after (hp : Possible start meter h) : Mirrors start meter h := by
  induction h with
  | nil => exact ⟨.nil, nofun, nofun, rfl⟩
  | cons a h ih =>
    have hm := ih hp.1
    have hstep := step_cons hp
    generalize hcircuits : (after start meter (a :: h)).circuits = cs,
      hmetrics : metrics start meter (a :: h) = m,
      a.isCounted meter (after start meter h) = counted at hstep
    cases hstep with
    | quiet counted =>
      refine mirrors_quiet hm hcircuits ?_ ?_ <;> rw [hmetrics] <;> split <;> rfl
    | added hnew => exact mirrors_added hp.1 hm hnew hcircuits hmetrics
    | turned hthere => exact mirrors_turned hm hthere hcircuits hmetrics

/-- The meter counts an action if it is a report of an error that it observes at the time. -/
theorem reports_cons (hp : Possible start meter h) (a : Action) :
    reports start meter (a :: h) =
      reports start meter h + if a.isCounted meter (after start meter h) then 1 else 0 := by
  obtain ⟨hstore, hpossible⟩ := store_after hp
  cases a with
  | onErrors a =>
    cases a with
    | report r =>
      rw [reports, Action.isCounted, Store.Action.isCounted]
      congr 2
      cases hd : (after start meter h).store.decorated? r with
      | none => simp
      | some d =>
        have hobserver := (Store.handlers_after hpossible (hstore ▸ hd)).2
        simp [hobserver]
    | _ => rfl
  | _ => rfl

private theorem errors_metrics (hp : Possible start meter h) :
    (metrics start meter h).errors.toNat = reports start meter h % UInt64.size := by
  induction h with
  | nil => rfl
  | cons a h ih =>
    have hrest := ih hp.1
    have hstep := step_cons hp
    rw [reports_cons hp.1]
    generalize (after start meter (a :: h)).circuits = cs, metrics start meter (a :: h) = m,
      a.isCounted meter (after start meter h) = counted at hstep ⊢
    cases hstep with
    | quiet counted =>
      cases counted with
      | false => exact hrest
      | true =>
        change ((metrics start meter h).errors + 1).toNat = _
        rw [UInt64.toNat_add, hrest]
        simp [Nat.add_mod]
    | added _ => exact hrest
    | turned _ => exact hrest

/-- What a meter shows over a run in which all breakers have it as their observer. -/
structure Metered (start : Time.Instant) (meter : String) (h : History) : Prop where
  /-- It shows the present state of a circuit once that was seen in a state other than closed, and
  no state before. -/
  shown : ∀ i name state, (after start meter h).circuits[i]? = some (name, state) →
    (HasLeft start meter h i → (metrics start meter h).state? name = some state) ∧
      (¬ HasLeft start meter h i → (metrics start meter h).state? name = none)
  /-- It shows circuits that have left, and nothing else. -/
  known : ∀ name ∈ (metrics start meter h).states.map (·.1),
    ∃ i state, (after start meter h).circuits[i]? = some (name, state) ∧ HasLeft start meter h i
  /-- Its first counter is the number of changes of state, of all circuits together. -/
  transitions : (metrics start meter h).transitions.toNat = turns start meter h % UInt64.size
  /-- Its second counter is the number of reports of errors that it observed. -/
  errors : (metrics start meter h).errors.toNat = reports start meter h % UInt64.size

/-- The meter of all breakers shows what they have come to, and counts their changes and the reports
of the errors that it observes. -/
theorem metered_of_possible (hp : Possible start meter h) : Metered start meter h where
  shown := (mirrors_after hp).shown
  known name hname := by
    have hm := mirrors_after hp
    have hsome : ((metrics start meter h).state? name).isSome := by
      rw [← Option.ne_none_iff_isSome, Metrics.state?, Ne, Dictionary.get?_eq_none_iff]
      exact fun hnot => hnot hname
    obtain ⟨e, he, rfl⟩ := List.mem_map.mp (hm.known name hsome)
    obtain ⟨i, hi⟩ := List.mem_iff_getElem?.mp he
    refine ⟨i, e.2, hi, Classical.byContradiction fun hnot => ?_⟩
    rw [(hm.shown i e.1 e.2 hi).2 hnot] at hsome
    exact absurd hsome nofun
  transitions := (mirrors_after hp).turned
  errors := errors_metrics hp

/-- Two circuits, of which one goes all the way round and the other stays closed, and an error that
takes the meter over from its cause. -/
def watched : History :=
  [.onErrors (.report 1), .onErrors (.report 0), .onErrors (.edit 0 (.setObserver .silent)),
    .onErrors (.wrap 0 "outer" [] 0), .call 0 .success, .call 1 .failure, .call 0 .ask,
    .call 1 (.advance ⟨2, 0⟩), .call 0 .failure, .onErrors (.edit 0 (.setObserver (.meter "m"))),
    .onErrors (.decorate "inner" [] 0), .addBreaker "b" ⟨2, ⟨1, 0⟩⟩, .addBreaker "a" ⟨1, ⟨1, 0⟩⟩]

/-- What a meter shows of a breaker that opens, recovers and closes again, and of one report. -/
theorem metered_watched :
    Possible ⟨0, 0⟩ "m" watched ∧ Metered ⟨0, 0⟩ "m" watched ∧
      (metrics ⟨0, 0⟩ "m" watched).states = [("a", .closed)] ∧
      turns ⟨0, 0⟩ "m" watched = 3 ∧ reports ⟨0, 0⟩ "m" watched = 1 := by
  have hp : Possible ⟨0, 0⟩ "m" watched := by decide
  exact ⟨hp, metered_of_possible hp, by decide, by decide, by decide⟩

end Site

end Mishap
