import Mishap.Proofs.Breaker.Run
import Mishap.Proofs.Effect

/-!
# What others hear of a breaker

The changes of a circuit go round in one order: closed, open, half-open, closed. Each of them makes
one event of the breaker's own, then one notice to the observer that is installed at that moment,
then one call of the callback that is registered at that moment, and nothing else makes any of
these. `changesFrom` lists the changes of a run by looking at the state before and after each call;
`runFrom_announced` compares what a run lets others notice with that list.
-/

namespace Mishap

namespace CircuitState

/-- The only other state that a circuit can come to. -/
def next : CircuitState → CircuitState
  | closed => .open
  | .open => halfOpen
  | halfOpen => closed

/-- The state of a new circuit after a number of changes. -/
def turn : Nat → CircuitState
  | 0 => closed
  | n + 1 => (turn n).next

/-- No state is its own next one. -/
theorem next_ne (s : CircuitState) : s.next ≠ s := by
  cases s <;> decide

end CircuitState

/-- The effect tells an observer of a change. -/
def Effect.isNoticeTo (o : Observer) : Effect → Prop
  | transitionObserved name _ _ _ => o = .recorder name
  | transitionCounted name _ _ => o = .meter name
  | event e => o = .stream ∧ e.target = Observer.target
  | _ => False

/-- The effect calls a callback. -/
def Effect.isCallOf (tag : String) : Effect → Prop
  | called callback _ _ _ => callback = tag
  | _ => False

namespace Breaker

/-- The observer given last in a run; a silent one if there is none. -/
def observerAfter : History → Observer
  | [] => .silent
  | .setObserver o? :: _ => o?.getD .silent
  | _ :: h => observerAfter h

/-- The callback given last in a run. -/
def callbackAfter? : History → Option String
  | [] => none
  | .onChange tag :: _ => some tag
  | _ :: h => callbackAfter? h

/-- A change of state, with the observer and the callback of that moment. -/
structure Change where
  before : CircuitState
  after : CircuitState
  observer : Observer
  callback? : Option String
  deriving DecidableEq, Repr

/-- The changes of state in a run, the oldest first. -/
def changesFrom (start : Time.Instant) (b : Breaker) : History → List Change
  | [] => []
  | c :: h =>
    let before := (runFrom start b h).state
    let after := (runFrom start b (c :: h)).state
    changesFrom start b h ++
      if after = before then [] else [⟨before, after, observerAfter h, callbackAfter? h⟩]

/-- The event is a breaker's own for a change: it carries the breaker's name and the state before,
and warns of an open circuit alone. -/
structure IsOwnEvent (name : String) (before after : CircuitState) (e : Event) : Prop where
  target : e.target = target
  level : e.level = if after = .open then .warn else .info
  circuit : e.fields.lookup "circuit" = some (.text name)
  origin : e.fields.lookup "from" = some (.text before.display)

/-- What one change lets others notice, given its event and what the observer is told. -/
def Change.notices (name : String) (c : Change) (e : Event) (told : List Effect) : List Effect :=
  [.event e] ++ told ++ c.callback?.toList.map fun tag => .called tag name c.before c.after

/-- The effects are those of the changes, each once and in order, and there are no others: an event
of the breaker's own, one notice to the observer with the name and both states, and one call of the
callback with these. -/
inductive Announced (name : String) : List Change → List Effect → Prop where
  | nil : Announced name [] []
  | snoc {cs : List Change} {es : List Effect} (earlier : Announced name cs es) (c : Change)
      (e : Event) (own : IsOwnEvent name c.before c.after e) (told : List Effect)
      (hears : c.observer.HearsChange name c.before c.after told) :
      Announced name (cs ++ [c]) (es ++ c.notices name e told)

/-! ### One call -/

/-- The outcome either keeps a breaker's state and is not noticed, or takes the circuit one turn
further, which is announced to the observer and the callback that the breaker has. -/
def Turns (b : Breaker) (r : Breaker × List Effect) : Prop :=
  (r.1.state = b.state ∧ r.2 = []) ∨
  (r.1.state = b.state.next ∧ ∃ e told, IsOwnEvent b.name b.state b.state.next e ∧
    b.observer.HearsChange b.name b.state b.state.next told ∧
    r.2 = Change.notices b.name ⟨b.state, b.state.next, b.observer, b.callback?⟩ e told)

private theorem isOwnEvent_eventOf (b : Breaker) (after : CircuitState) :
    IsOwnEvent b.name b.state after (b.eventOf after) where
  target := rfl
  level := rfl
  circuit := rfl
  origin := rfl

private theorem turns_moveTo (b : Breaker) (after : CircuitState) (h : b.state.next = after) :
    Turns b (b.moveTo after) := by
  subst h
  have hne : ¬ b.state = b.state.next := fun he => CircuitState.next_ne b.state he.symm
  unfold moveTo
  rw [if_neg hne]
  exact .inr ⟨rfl, _, _, isOwnEvent_eventOf b _, b.observer.hearsChange_recordTransition _ _ _, rfl⟩

/-- Every call keeps the state unnoticed, or turns the circuit and announces it. -/
theorem turns_apply (c : Call) (now : Time.Instant) (b : Breaker) : Turns b (c.apply now b) := by
  cases c with
  | failure =>
    simp only [Call.apply, recordFailure]
    split
    · next h =>
      exact turns_moveTo { b with failures := _, lastFailure? := _ } .open (by rw [h.1]; rfl)
    · exact .inl ⟨rfl, rfl⟩
  | success =>
    simp only [Call.apply, recordSuccess]
    split
    · next h => exact turns_moveTo { b with failures := 0 } .closed (by rw [h]; rfl)
    · exact .inl ⟨rfl, rfl⟩
  | ask =>
    simp only [Call.apply, canExecute]
    split
    · next h =>
      split
      · exact turns_moveTo b .halfOpen (by rw [h]; rfl)
      · exact .inl ⟨rfl, rfl⟩
    · exact .inl ⟨rfl, rfl⟩
  | setObserver o? => exact .inl ⟨rfl, rfl⟩
  | onChange tag => exact .inl ⟨rfl, rfl⟩
  | advance span => exact .inl ⟨rfl, rfl⟩

/-- Only giving an observer changes the observer, and only giving a callback the callback. -/
theorem apply_listeners (c : Call) (now : Time.Instant) (b : Breaker) :
    (c.apply now b).1.observer =
      (match c with | .setObserver o? => o?.getD .silent | _ => b.observer) ∧
    (c.apply now b).1.callback? =
      (match c with | .onChange tag => some tag | _ => b.callback?) := by
  cases c with
  | failure => simp only [Call.apply, recordFailure_fst, and_self]
  | success => simp only [Call.apply, recordSuccess_fst]; split <;> exact ⟨rfl, rfl⟩
  | ask => simp only [Call.apply, canExecute_breaker]; split <;> exact ⟨rfl, rfl⟩
  | setObserver o? => exact ⟨rfl, rfl⟩
  | onChange tag => exact ⟨rfl, rfl⟩
  | advance span => exact ⟨rfl, rfl⟩

/-- A new breaker has the observer and the callback that it was given last. -/
theorem runFrom_listeners (name : String) (s : BreakerSettings) (start : Time.Instant)
    (h : History) :
    (runFrom start (new name s) h).observer = observerAfter h ∧
    (runFrom start (new name s) h).callback? = callbackAfter? h := by
  induction h with
  | nil => exact ⟨rfl, rfl⟩
  | cons c h ih =>
    have hc := apply_listeners c (clockFrom start h) (runFrom start (new name s) h)
    rw [ih.1, ih.2] at hc
    cases c <;> exact hc

/-! ### Runs -/

/-- What one more call adds to the changes and to the effects of a run: nothing at all, or the next
turn of the circuit and its notices. -/
theorem effectsFrom_cons (name : String) (s : BreakerSettings) (start : Time.Instant) (c : Call)
    (h : History) :
    let b := runFrom start (new name s) h
    let b' := runFrom start (new name s) (c :: h)
    let change : Change := ⟨b.state, b.state.next, observerAfter h, callbackAfter? h⟩
    (b'.state = b.state ∧
      changesFrom start (new name s) (c :: h) = changesFrom start (new name s) h ∧
      effectsFrom start (new name s) (c :: h) = effectsFrom start (new name s) h) ∨
    (b'.state = b.state.next ∧
      changesFrom start (new name s) (c :: h) = changesFrom start (new name s) h ++ [change] ∧
      ∃ e told, IsOwnEvent name b.state b.state.next e ∧
        change.observer.HearsChange name b.state b.state.next told ∧
        effectsFrom start (new name s) (c :: h) =
          effectsFrom start (new name s) h ++ change.notices name e told) := by
  intro b b' change
  have hname : b.name = name := (runFrom_name_settings start (new name s) h).1
  obtain ⟨hobserver, hcallback⟩ := runFrom_listeners name s start h
  rcases turns_apply c (clockFrom start h) b with ⟨hs, he⟩ | ⟨hs, e, told, hown, hears, he⟩
  · have hs : (runFrom start (new name s) (c :: h)).state =
        (runFrom start (new name s) h).state := hs
    refine .inl ⟨hs, ?_, ?_⟩
    · rw [changesFrom, if_pos hs, List.append_nil]
    · rw [effectsFrom, he, List.append_nil]
  · have hs : (runFrom start (new name s) (c :: h)).state =
        (runFrom start (new name s) h).state.next := hs
    rw [hname, hobserver] at hears
    refine .inr ⟨hs, ?_, e, told, hname ▸ hown, hears, ?_⟩
    · rw [changesFrom, hs, if_neg (CircuitState.next_ne _)]
    · rw [effectsFrom, he, hname, hobserver, hcallback]

/-- What a breaker has announced are its changes. -/
theorem announced_effectsFrom (name : String) (s : BreakerSettings) (start : Time.Instant)
    (h : History) :
    Announced name (changesFrom start (new name s) h) (effectsFrom start (new name s) h) := by
  induction h with
  | nil => exact .nil
  | cons c h ih =>
    rcases effectsFrom_cons name s start c h with ⟨-, hc, he⟩ | ⟨-, hc, e, told, hown, hears, he⟩
    · rw [hc, he]
      exact ih
    · rw [hc, he]
      exact ih.snoc _ e hown told hears

/-- The changes go round from the closed state, and have led to the present one. -/
theorem changesFrom_turn (name : String) (s : BreakerSettings) (start : Time.Instant)
    (h : History) :
    let cs := changesFrom start (new name s) h
    (runFrom start (new name s) h).state = .turn cs.length ∧
    (cs.map fun c => (c.before, c.after)) =
      (List.range cs.length).map fun i => (.turn i, .turn (i + 1)) := by
  induction h with
  | nil => exact ⟨rfl, rfl⟩
  | cons c h ih =>
    obtain ⟨hstate, hcs⟩ := ih
    rcases effectsFrom_cons name s start c h with ⟨hs, hc, -⟩ | ⟨hs, hc, -⟩
    · rw [hc, hs]
      exact ⟨hstate, hcs⟩
    · rw [hc, hs, hstate]
      refine ⟨by rw [List.length_append]; rfl, ?_⟩
      rw [List.map_append, hcs, List.length_append, List.length_singleton, List.range_succ,
        List.map_append]
      rfl

/-- The last change is the one that led to the present state. -/
theorem after_getLast?_changesFrom (name : String) (s : BreakerSettings) (start : Time.Instant)
    (h : History) :
    (((changesFrom start (new name s) h).getLast?).map (·.after)).getD .closed =
      (runFrom start (new name s) h).state := by
  induction h with
  | nil => rfl
  | cons c h ih =>
    rcases effectsFrom_cons name s start c h with ⟨hs, hc, -⟩ | ⟨hs, hc, -⟩
    · rw [hc, hs, ih]
    · rw [hc, hs, List.getLast?_append]
      rfl

/-! ### Who hears what -/

private theorem observer_of_notice {o o' : Observer} {name : String} {before after : CircuitState}
    {told : List Effect} {x : Effect} (hears : o.HearsChange name before after told)
    (hx : x ∈ told) (hn : x.isNoticeTo o') : o' = o ∧ o ≠ .silent := by
  cases hears with
  | silent => exact absurd hx List.not_mem_nil
  | recorder n =>
    cases List.mem_singleton.mp hx
    exact ⟨hn, nofun⟩
  | stream e tells =>
    cases List.mem_singleton.mp hx
    exact ⟨hn.1, nofun⟩
  | meter n =>
    cases List.mem_singleton.mp hx
    exact ⟨hn, nofun⟩

private theorem not_isCallOf_told {o : Observer} {name tag : String} {before after : CircuitState}
    {told : List Effect} {x : Effect} (hears : o.HearsChange name before after told)
    (hx : x ∈ told) : ¬ x.isCallOf tag := by
  cases hears with
  | silent => exact absurd hx List.not_mem_nil
  | recorder n => cases List.mem_singleton.mp hx; exact id
  | stream e tells => cases List.mem_singleton.mp hx; exact id
  | meter n => cases List.mem_singleton.mp hx; exact id

/-- Of the notices of a change, one is to its observer and one is a call of its callback; its event
is neither. -/
theorem mem_notices {name : String} {c : Change} {e : Event} {told : List Effect} {x : Effect}
    (hown : IsOwnEvent name c.before c.after e)
    (hears : c.observer.HearsChange name c.before c.after told) (hx : x ∈ c.notices name e told) :
    (∀ o, x.isNoticeTo o → c.observer = o ∧ o ≠ .silent) ∧
    (∀ tag, x.isCallOf tag → c.callback? = some tag) := by
  rcases List.mem_append.mp hx with hx | hx
  · rcases List.mem_append.mp hx with hx | hx
    · cases List.mem_singleton.mp hx
      refine ⟨fun o hn => ?_, fun tag hc => hc.elim⟩
      exact absurd (hown.target.symm.trans hn.2) (by decide)
    · refine ⟨fun o hn => ?_, fun tag hc => ?_⟩
      · obtain ⟨rfl, hne⟩ := observer_of_notice hears hx hn
        exact ⟨rfl, hne⟩
      · exact absurd hc (not_isCallOf_told hears hx)
  · obtain ⟨tag', ht, rfl⟩ := List.mem_map.mp hx
    refine ⟨fun o hn => hn.elim, fun tag hc => ?_⟩
    cases hc
    exact Option.mem_toList.mp ht

/-- What one more call lets others notice is heard by nobody but the observer and the callback that
were given last before it. -/
theorem heard_effectsFrom_cons (name : String) (s : BreakerSettings) (start : Time.Instant)
    (c : Call) (h : History) :
    ∃ es, effectsFrom start (new name s) (c :: h) = effectsFrom start (new name s) h ++ es ∧
      ∀ x ∈ es, (∀ o, x.isNoticeTo o → observerAfter h = o ∧ o ≠ .silent) ∧
        (∀ tag, x.isCallOf tag → callbackAfter? h = some tag) := by
  rcases effectsFrom_cons name s start c h with ⟨-, -, he⟩ | ⟨-, -, e, told, hown, hears, he⟩
  · refine ⟨[], by rw [he, List.append_nil], fun x hx => absurd hx List.not_mem_nil⟩
  · exact ⟨_, he, fun x hx => mem_notices hown hears hx⟩

private theorem observerAfter_append {o : Observer} (ho : o ≠ .silent) {later past : History}
    (hnot : .setObserver (some o) ∉ later) (h : observerAfter (later ++ past) = o) :
    observerAfter past = o := by
  induction later with
  | nil => exact h
  | cons c later ih =>
    have hlater : .setObserver (some o) ∉ later := fun hm => hnot (List.mem_cons_of_mem _ hm)
    cases c with
    | setObserver o? =>
      cases o? with
      | none => exact absurd h.symm ho
      | some o' =>
        have he : o' = o := h
        exact absurd (he ▸ List.mem_cons_self) hnot
    | failure | success | ask | onChange tag | advance span => exact ih hlater h

private theorem callbackAfter?_append {tag : String} {later past : History}
    (hnot : .onChange tag ∉ later) (h : callbackAfter? (later ++ past) = some tag) :
    callbackAfter? past = some tag := by
  induction later with
  | nil => exact h
  | cons c later ih =>
    have hlater : .onChange tag ∉ later := fun hm => hnot (List.mem_cons_of_mem _ hm)
    cases c with
    | onChange tag' =>
      have he : tag' = tag := Option.some.inj h
      exact absurd (he ▸ List.mem_cons_self) hnot
    | failure | success | ask | setObserver o? | advance span => exact ih hlater h

/-- An observer that is not the one of a moment hears nothing from then on unless it is given
again. -/
theorem unheard_of_observerAfter_ne (name : String) (s : BreakerSettings) (start : Time.Instant)
    (o : Observer) (past later : History) (hpast : observerAfter past ≠ o)
    (hlater : .setObserver (some o) ∉ later) :
    ∃ es, effectsFrom start (new name s) (later ++ past) =
      effectsFrom start (new name s) past ++ es ∧ ∀ x ∈ es, ¬ x.isNoticeTo o := by
  induction later with
  | nil => exact ⟨[], by rw [List.append_nil]; rfl, fun x hx => absurd hx List.not_mem_nil⟩
  | cons c later ih =>
    have hrest : .setObserver (some o) ∉ later := fun hm => hlater (List.mem_cons_of_mem _ hm)
    obtain ⟨es, hes, hun⟩ := ih hrest
    obtain ⟨new, hnew, hheard⟩ := heard_effectsFrom_cons name s start c (later ++ past)
    refine ⟨es ++ new, by rw [List.cons_append, hnew, hes, List.append_assoc], fun x hx hn => ?_⟩
    rcases List.mem_append.mp hx with hx | hx
    · exact hun x hx hn
    · obtain ⟨ho, hne⟩ := (hheard x hx).1 o hn
      exact hpast (observerAfter_append hne hrest ho)

/-- A callback that is not the one of a moment is not called from then on unless it is given
again. -/
theorem uncalled_of_callbackAfter?_ne (name : String) (s : BreakerSettings) (start : Time.Instant)
    (tag : String) (past later : History) (hpast : callbackAfter? past ≠ some tag)
    (hlater : .onChange tag ∉ later) :
    ∃ es, effectsFrom start (new name s) (later ++ past) =
      effectsFrom start (new name s) past ++ es ∧ ∀ x ∈ es, ¬ x.isCallOf tag := by
  induction later with
  | nil => exact ⟨[], by rw [List.append_nil]; rfl, fun x hx => absurd hx List.not_mem_nil⟩
  | cons c later ih =>
    have hrest : .onChange tag ∉ later := fun hm => hlater (List.mem_cons_of_mem _ hm)
    obtain ⟨es, hes, hun⟩ := ih hrest
    obtain ⟨new, hnew, hheard⟩ := heard_effectsFrom_cons name s start c (later ++ past)
    refine ⟨es ++ new, by rw [List.cons_append, hnew, hes, List.append_assoc], fun x hx hc => ?_⟩
    rcases List.mem_append.mp hx with hx | hx
    · exact hun x hx hc
    · exact hpast (callbackAfter?_append hrest ((hheard x hx).2 tag hc))

/-- In every run the changes of a new breaker go round from closed to open to half-open to closed,
and the last has led to the present state. What the run lets others notice is, change after change,
one event of the breaker's own, one notice to the observer of that moment and one call of the
callback of that moment; a call that keeps the state adds nothing. An observer hears nothing, and a
callback is not called, before it is given and after it is replaced. -/
theorem runFrom_announced (name : String) (s : BreakerSettings) (start : Time.Instant)
    (h : History) :
    let b := new name s
    let cs := changesFrom start b h
    (cs.map fun c => (c.before, c.after)) =
      ((List.range cs.length).map fun i => (.turn i, .turn (i + 1))) ∧
    (runFrom start b h).state = ((cs.getLast?).map (·.after)).getD .closed ∧
    Announced name cs (effectsFrom start b h) ∧
    (∀ c, (runFrom start b (c :: h)).state = (runFrom start b h).state →
      effectsFrom start b (c :: h) = effectsFrom start b h) ∧
    (∀ o later, observerAfter h ≠ o → .setObserver (some o) ∉ later →
      ∃ es, effectsFrom start b (later ++ h) = effectsFrom start b h ++ es ∧
        ∀ x ∈ es, ¬ x.isNoticeTo o) ∧
    (∀ tag later, callbackAfter? h ≠ some tag → .onChange tag ∉ later →
      ∃ es, effectsFrom start b (later ++ h) = effectsFrom start b h ++ es ∧
        ∀ x ∈ es, ¬ x.isCallOf tag) := by
  intro b cs
  refine ⟨(changesFrom_turn name s start h).2, (after_getLast?_changesFrom name s start h).symm,
    announced_effectsFrom name s start h, fun c hs => ?_, fun o later hpast hlater => ?_,
    fun tag later hpast hlater => ?_⟩
  · rcases effectsFrom_cons name s start c h with ⟨-, -, he⟩ | ⟨hn, -⟩
    · exact he
    · exact absurd (hn.symm.trans hs) (CircuitState.next_ne _)
  · exact unheard_of_observerAfter_ne name s start o h later hpast hlater
  · exact uncalled_of_callbackAfter?_ne name s start tag h later hpast hlater

end Breaker

end Mishap
