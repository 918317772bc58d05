import Mishap.Proofs.Dictionary
import Mishap.Proofs.Store.Walk

/-!
# The metadata of errors over a run

A decorated error has under each key what was last written there on the error itself, else what it
took over when it was made, with the attempts counted since (`metadata?_after`). Only an edit of the
error itself changes it (`decorated?_of_unedited`): the copies that a wrapper and its cause have of
one entry go their own ways.
-/

namespace Mishap

/-- One more attempt is counted, where attempts are kept. -/
def Metadata.counted (now : Time.Instant) : Metadata → Metadata
  | retry info => retry (info.increment now)
  | m => m

namespace Decorated.Edit

/-- What an edit writes under a key. Bookkeeping of attempts is written like any other entry, under
its own key (`Decorated.setRetry`). -/
def writes? (key : String) : Edit → Option Metadata
  | annotate k value => if k = key then some value else none
  | setContext c => if Metadata.contextKey = key then some (.context c) else none
  | suggest r => if Metadata.recoveryKey = key then some (.recovery r) else none
  | attachLogger _ | setObserver _ | increment _ => none

/-- The moment at which an edit counts an attempt. -/
def counts? : Edit → Option Time.Instant
  | increment now => some now
  | _ => none

/-- Under each key stands what was written there; else what stood there, with the attempt counted
if it is kept there. -/
theorem metadata?_apply (e : Edit) (d : Decorated) (key : String) :
    (e.apply d).1.metadata? key =
      (e.writes? key).or
        (if key = Metadata.retryKey then
          (d.metadata? key).map (e.counts?.toList.foldr Metadata.counted)
        else d.metadata? key) := by
  have hkept : (d.metadata? key) =
      if key = Metadata.retryKey then (d.metadata? key).map fun m => m else d.metadata? key := by
    rw [Option.map_id', ite_self]
  have hinsert : ∀ k value, Dictionary.get? key (Dictionary.insert k value d.metadata) =
      (if k = key then some value else none).or (d.metadata? key) := by
    intro k value
    rw [Dictionary.get?_insert]
    split <;> rfl
  cases e with
  | attachLogger l => exact hkept
  | setObserver o => exact hkept
  | annotate k value => exact (hinsert k value).trans (congrArg _ hkept)
  | setContext c => exact (hinsert _ _).trans (congrArg _ hkept)
  | suggest r => exact (hinsert _ _).trans (congrArg _ hkept)
  | increment now =>
    have hinfo : d.retryInfo? = (d.metadata? Metadata.retryKey).bind Metadata.asRetryInfo? := rfl
    have hwrites : (increment now).writes? key = none := rfl
    rw [apply, perform, hinfo, hwrites, Option.none_or]
    by_cases hkey : key = Metadata.retryKey
    · subst hkey
      rw [if_pos rfl]
      cases hm : d.metadata? Metadata.retryKey with
      | none => exact hm
      | some m =>
        cases m with
        | retry info => exact (hinsert _ _).trans (by rw [if_pos rfl]; rfl)
        | _ => exact hm
    · rw [if_neg hkey]
      split
      · exact (hinsert _ _).trans (by rw [if_neg (Ne.symm hkey), Option.none_or])
      · rfl

/-- An edit keeps the metadata in the order of its keys. -/
theorem ascending_apply (e : Edit) {d : Decorated} (h : d.metadata.Ascending) :
    (e.apply d).1.metadata.Ascending := by
  cases e with
  | attachLogger l => exact h
  | setObserver o => exact h
  | annotate key value => exact h.insert key value
  | setContext c => exact h.insert Metadata.contextKey (.context c)
  | suggest r => exact h.insert Metadata.recoveryKey (.recovery r)
  | increment now =>
    rw [apply, perform]
    split
    · next info _ => exact h.insert Metadata.retryKey (.retry (info.increment now))
    · exact h

end Decorated.Edit

namespace Store

/-! ### What a run writes -/

namespace Action

/-- What an action does to a decorated error. -/
def revise (r : Ref) (d : Decorated) : Action → Decorated
  | edit q e => if q = r then (e.apply d).1 else d
  | _ => d

/-- What an action writes under a key of an error. -/
def writes? (r : Ref) (key : String) : Action → Option Metadata
  | edit q e => if q = r then e.writes? key else none
  | _ => none

/-- The moment at which an action counts an attempt of an error. -/
def counts? (r : Ref) : Action → Option Time.Instant
  | edit q e => if q = r then e.counts? else none
  | _ => none

/-- What an error that an action makes takes over under a key: what the first decorated error in the
chain of its cause has there. -/
def passesOn? (s : Store) (key : String) : Action → Option Metadata
  | wrap cause _ _ _ => ((s.walk cause).findSome? s.decorated?).bind (·.metadata? key)
  | _ => none

end Action

/-- What was last written under a key on an error itself. -/
def written? : History → Ref → String → Option Metadata
  | [], _, _ => none
  | a :: h, r, key => (a.writes? r key).or (written? h r key)

/-- What an error took over under a key when it was made. -/
def inherited? : History → Ref → String → Option Metadata
  | [], _, _ => none
  | a :: h, r, key =>
    if r = (after h).next then a.passesOn? (after h) key else inherited? h r key

/-- The attempts of an error since its bookkeeping was last written, the newest first. -/
def attempts : History → Ref → List Time.Instant
  | [], _ => []
  | a :: h, r =>
    if (a.writes? r Metadata.retryKey).isSome then [] else (a.counts? r).toList ++ attempts h r

/-- What an error has under a key: what was last written there, else what it took over, with the
attempts counted since. -/
def standing? (h : History) (r : Ref) (key : String) : Option Metadata :=
  let entry := (written? h r key).or (inherited? h r key)
  if key = Metadata.retryKey then entry.map ((attempts h r).foldr Metadata.counted) else entry

/-! ### What an action does to decorated errors -/

/-- A decorated error stands at a place exactly if it is what is there. -/
theorem decorated?_eq_some_iff {s : Store} {r : Ref} {d : Decorated} :
    s.decorated? r = some d ↔ s.body? r = some (.decorated d) := by
  unfold decorated?
  constructor
  · intro h
    split at h
    · next hb =>
      cases h
      exact hb
    · exact absurd h nofun
  · intro h
    rw [h]

/-- An action revises what was decorated, and decorates nothing else of what was there. -/
theorem decorated?_cons {a : Action} {h : History} (hp : Possible (a :: h)) {r : Ref}
    (hr : r < (after h).next) :
    (after (a :: h)).decorated? r = ((after h).decorated? r).map (a.revise r) := by
  have hs := sound_after hp.1
  obtain ⟨b, hb⟩ := body?_of_lt hr
  cases b with
  | decorated d =>
    have htouch : a.touch r (.decorated d) = .decorated (a.revise r d) := by
      cases a with
      | edit q e =>
        rw [Action.touch, Action.revise]
        split <;> rfl
      | append q member? => exact ite_self _
      | clear q => exact ite_self _
      | release q => exact ite_self _
      | _ => rfl
    have hrevised : (after (a :: h)).body? r = some (.decorated (a.revise r d)) := by
      rw [after, Action.body?_apply hs a hr, hb, Option.map_some, htouch]
      exact congrArg some (ite_self _)
    rw [decorated?_eq_some_iff.mpr hrevised, decorated?_eq_some_iff.mpr hb, Option.map_some]
  | _ =>
    obtain ⟨b', hb', hcont⟩ := continues_cons hp hb
    rw [decorated?, decorated?, hb, hb']
    cases hcont <;> rfl

/-- The errors of the decorated kind are the decorated ones. -/
theorem isOf_decorated (s : Store) (r : Ref) : s.isOf .decorated r = (s.decorated? r).isSome := by
  unfold isOf decorated?
  cases s.body? r with
  | none => rfl
  | some b => cases b <;> rfl

/-- A search for a decorated error finds the first one that one comes to. -/
theorem find?_decorated (s : Store) (r : Ref) :
    (s.find? .decorated r).bind s.decorated? = (s.walk r).findSome? s.decorated? := by
  rw [find?, search?_eq_find?]
  induction s.walk r with
  | nil => rfl
  | cons q qs ih =>
    rw [List.find?_cons, List.findSome?_cons, isOf_decorated]
    cases hq : s.decorated? q with
    | none => exact ih
    | some d => exact hq

/-- A new decorated error has what it took over. -/
theorem metadata?_made {s : Store} {a : Action} {i : Nat} {d : Decorated}
    (h : (a.made s)[i]? = some (.decorated d)) (key : String) :
    i = 0 ∧ d.metadata? key = a.passesOn? s key := by
  cases i with
  | succ i => exact absurd (Action.made_succ h) nofun
  | zero =>
    refine ⟨rfl, ?_⟩
    cases a with
    | decorate message frames levels =>
      cases h
      rfl
    | wrap cause message frames levels =>
      cases h
      rw [freshOver, find?_decorated, Action.passesOn?]
      cases (s.walk cause).findSome? s.decorated? with
      | none => rfl
      | some inner => rfl
    | joinGroup r =>
      rw [Action.made] at h
      split at h <;> cases h
    | _ => cases h

/-! ### What a run does to decorated errors -/

/-- On what it is not given an action writes and counts nothing. -/
theorem Action.writes?_of_not_given {a : Action} {r : Ref} (h : r ∉ a.refs) :
    (∀ key, a.writes? r key = none) ∧ a.counts? r = none := by
  cases a with
  | edit q e =>
    have hne : q ≠ r := fun heq => h (heq ▸ List.mem_singleton_self q)
    exact ⟨fun key => if_neg hne, if_neg hne⟩
  | _ => exact ⟨fun _ => rfl, rfl⟩

/-- On what was given to no action nothing was written. -/
theorem unwritten_of_not_given {h : History} {r : Ref} (hr : ∀ a ∈ h, r ∉ a.refs) (key : String) :
    written? h r key = none ∧ attempts h r = [] := by
  induction h with
  | nil => exact ⟨rfl, rfl⟩
  | cons a h ih =>
    obtain ⟨hwritten, hattempts⟩ := ih fun b hb => hr b (List.mem_cons_of_mem a hb)
    obtain ⟨hwrites, hcounts⟩ := Action.writes?_of_not_given (hr a List.mem_cons_self)
    rw [written?, attempts, hwrites, hwrites, hcounts, hwritten, hattempts]
    exact ⟨rfl, rfl⟩

/-- An action on an old error writes or counts, and leaves what was taken over. -/
theorem standing?_cons {a : Action} {h : History} {r : Ref} (hr : r < (after h).next)
    (key : String) :
    standing? (a :: h) r key =
      (a.writes? r key).or
        (if key = Metadata.retryKey then
          (standing? h r key).map ((a.counts? r).toList.foldr Metadata.counted)
        else standing? h r key) := by
  have hinherited : inherited? (a :: h) r key = inherited? h r key := if_neg (Nat.ne_of_lt hr)
  rw [standing?, standing?, written?, hinherited, Option.or_assoc]
  by_cases hkey : key = Metadata.retryKey
  · subst hkey
    rw [if_pos rfl, if_pos rfl, if_pos rfl, attempts]
    cases hwrites : a.writes? r Metadata.retryKey with
    | some m => rfl
    | none =>
      rw [Option.none_or, Option.none_or, Option.map_map]
      congr 1
      funext m
      exact List.foldr_append
  · rw [if_neg hkey, if_neg hkey, if_neg hkey]

/-- After an action a key has what the action wrote, or else what it had; of attempts, with those
that were counted. -/
theorem metadata?_revise (a : Action) (r : Ref) (d : Decorated) (key : String) :
    (a.revise r d).metadata? key =
      (a.writes? r key).or
        (if key = Metadata.retryKey then
          (d.metadata? key).map ((a.counts? r).toList.foldr Metadata.counted)
        else d.metadata? key) := by
  cases a with
  | edit q e =>
    rw [Action.revise, Action.writes?, Action.counts?]
    by_cases heq : q = r
    · rw [if_pos heq, if_pos heq, if_pos heq]
      exact e.metadata?_apply d key
    · simp [if_neg heq]
  | _ => simp [Action.revise, Action.writes?, Action.counts?]

/-- A decorated error has under each key what was last written there, else what it took over, with
the attempts counted since. -/
theorem metadata?_after {h : History} (hp : Possible h) {r : Ref} {d : Decorated}
    (hd : (after h).decorated? r = some d) (key : String) :
    d.metadata? key = standing? h r key := by
  induction h generalizing d with
  | nil => exact absurd hd nofun
  | cons a h ih =>
    by_cases hr : r < (after h).next
    · rw [decorated?_cons hp hr] at hd
      obtain ⟨d₀, hd₀, rfl⟩ := Option.map_eq_some_iff.mp hd
      rw [standing?_cons hr, metadata?_revise, ih hp.1 hd₀]
    · obtain ⟨i, rfl⟩ := Nat.exists_eq_add_of_le (Nat.le_of_not_lt hr)
      have hmade := decorated?_eq_some_iff.mp hd
      rw [after, Action.body?_apply_new (sound_after hp.1)] at hmade
      obtain ⟨rfl, hmetadata⟩ := metadata?_made hmade key
      have hfresh : ∀ b ∈ a :: h, (after h).next + 0 ∉ b.refs := by
        intro b hb hgiven
        rcases List.mem_cons.mp hb with rfl | hb
        · exact Nat.lt_irrefl _ (lt_next_of_mem_living (hp.2.1 _ hgiven))
        · exact Nat.lt_irrefl _ (lt_next_of_given hp.1 hb hgiven)
      obtain ⟨hwritten, hattempts⟩ := unwritten_of_not_given hfresh key
      rw [hmetadata, standing?, hwritten, hattempts, inherited?, if_pos (Nat.add_zero _)]
      simp

/-- Only an edit of an error itself changes it. -/
theorem decorated?_of_unedited {later h : History} (hp : Possible (later ++ h)) {r : Ref}
    (hr : ∀ e, .edit r e ∉ later) {d : Decorated} (hd : (after h).decorated? r = some d) :
    (after (later ++ h)).decorated? r = some d := by
  induction later with
  | nil => exact hd
  | cons a later ih =>
    have hlater := ih hp.1 fun e he => hr e (List.mem_cons_of_mem a he)
    have hlt := lt_next_of_body? (decorated?_eq_some_iff.mp hlater)
    have hrevise : a.revise r d = d := by
      cases a with
      | edit q e =>
        have hne : q ≠ r := by
          rintro rfl
          exact hr e List.mem_cons_self
        exact if_neg hne
      | _ => rfl
    have hcons : Possible (a :: (later ++ h)) := hp
    rw [List.cons_append, decorated?_cons hcons hlt, hlater, Option.map_some, hrevise]

/-- What the metadata of decorated errors is. -/
structure Annotated (h : History) : Prop where
  /-- Under each key stands what was last written there on the error itself, else what it took over
  when it was made, with the attempts counted since. -/
  metadata : ∀ r d, (after h).decorated? r = some d → ∀ key, d.metadata? key = standing? h r key
  /-- Whatever else happens, the error stays as it is. -/
  others : ∀ later, Possible (later ++ h) → ∀ r, (∀ e, .edit r e ∉ later) →
    ∀ d, (after h).decorated? r = some d → (after (later ++ h)).decorated? r = some d

/-- In every world metadata is what was last written, or taken over by wrapping. -/
theorem annotated_of_possible {h : History} (hp : Possible h) : Annotated h where
  metadata _ _ hd key := metadata?_after hp hd key
  others _ hlater _ hr _ hd := decorated?_of_unedited hlater hr hd

/-- An error with bookkeeping is wrapped behind a joined error, and the wrapper is wrapped again;
then each of them counts attempts and takes writes of its own. -/
def inscribed : History :=
  [.edit 4 (.increment ⟨3, 0⟩), .edit 0 (.increment ⟨2, 0⟩), .edit 4 (.annotate "k" (.data .null)),
    .wrap 3 "second" [] 0, .edit 3 (.suggest default), .wrap 2 "first" [] 0, .join [1, 0],
    .edit 0 (.increment ⟨1, 0⟩),
    .edit 0 (.annotate Metadata.retryKey (.retry (.new 3 default ⟨0, 0⟩))), .leaf "leaf" 0,
    .decorate "root" [] 0]

/-- Metadata of wrappers and of what they wrap, written in turn. -/
theorem annotated_inscribed : Possible inscribed ∧ Annotated inscribed :=
  ⟨by decide, annotated_of_possible (by decide)⟩

example :
    [0, 3, 4].map (fun r => ((after inscribed).decorated? r).bind fun d =>
      d.retryInfo?.map fun info => (info.currentAttempt, info.lastAttempt.seconds)) =
      [some (2, 2), some (1, 1), some (2, 3)] := by
  decide

end Store

end Mishap
