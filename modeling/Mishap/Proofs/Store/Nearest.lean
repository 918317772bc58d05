import Mishap.Proofs.Store.Metadata

/-!
# The nearest decorated error

The nearest decorated error is the first one that one comes to from an error (`nearest?`); a wrapper
takes over stack, metadata and observer of the one nearest to its cause (`freshOver_of_nearest`).
What holds of each decorated error when it is made, and is kept by every action, holds of each after
a run (`decorated_induction`).
-/

namespace Mishap.Store

variable {s : Store} {r t : Ref}

/-! ### Searches for a decorated error -/

/-- The first decorated error that one comes to from an error. -/
def nearest? (s : Store) (r : Ref) : Option Ref :=
  (s.walk r).find? fun q => (s.decorated? q).isSome

/-- A search for a decorated error finds the nearest one. -/
theorem find?_eq_nearest? (s : Store) (r : Ref) : s.find? .decorated r = s.nearest? r := by
  rw [find?, search?_eq_find?, nearest?]
  congr 1
  funext q
  exact isOf_decorated s q

/-- The nearest one stands in the walk behind none but errors that are not decorated. -/
theorem nearest?_eq_some_iff :
    s.nearest? r = some t ↔
      (s.decorated? t).isSome ∧ ∃ before later, s.walk r = before ++ t :: later ∧
        ∀ q ∈ before, s.decorated? q = none := by
  rw [← find?_eq_nearest?, find?, search?_eq_some_iff]
  simp [isOf_decorated]

/-- The nearest decorated error can be reached. -/
theorem reaches_of_nearest? (hd : s.Descending) (h : s.nearest? r = some t) : s.Reaches r t := by
  obtain ⟨-, before, later, hwalk, -⟩ := nearest?_eq_some_iff.mp h
  exact (mem_walk_iff hd).mp (by simp [hwalk])

/-- The nearest decorated error is a decorated one. -/
theorem exists_decorated_of_nearest? (h : s.nearest? r = some t) : ∃ d, s.decorated? t = some d :=
  Option.isSome_iff_exists.mp (nearest?_eq_some_iff.mp h).1

/-- No decorated error is near exactly if none can be reached. -/
theorem nearest?_eq_none_iff (hd : s.Descending) :
    s.nearest? r = none ↔ ∀ t, s.Reaches r t → s.decorated? t = none := by
  rw [← find?_eq_nearest?, find?, search?_eq_none_iff]
  simp [isOf_decorated, mem_walk_iff hd]

/-- A search looks at the error itself, then goes on with the parts of a joined error from left to
right, and with the source of any other. -/
theorem nearest?_eq (hd : s.Descending) (r : Ref) :
    s.nearest? r =
      if (s.decorated? r).isSome then some r
      else
        match s.parts? r with
        | some parts => parts.findSome? s.nearest?
        | none => (s.source? r).bind s.nearest? := by
  have hnearest : s.search? (s.isOf .decorated) = s.nearest? := funext (find?_eq_nearest? s)
  have hfind := search?_of_descending hd (s.isOf .decorated) r
  rw [hnearest, isOf_decorated] at hfind
  exact hfind

/-- A decorated error is nearest to itself. -/
theorem nearest?_of_decorated (hd : s.Descending) {d : Decorated} (h : s.decorated? r = some d) :
    s.nearest? r = some r := by
  rw [nearest?_eq hd, h]
  rfl

/-- A group that was not joined is near to no decorated error. -/
theorem nearest?_of_group (hd : s.Descending) {g : Group} (h : s.body? r = some (.group g)) :
    s.nearest? r = none := by
  refine (nearest?_eq_none_iff hd).mpr fun t ht => ?_
  rw [(reaches_group_iff h).mp ht, decorated?, h]

/-- A new wrapper takes over stack, metadata and observer of the decorated error nearest to its
cause. -/
theorem freshOver_of_nearest {cause q : Ref} (hq : s.nearest? cause = some q) {inner : Decorated}
    (hinner : s.decorated? q = some inner) (message : String) (frames : List Frame) :
    s.freshOver cause message frames =
      { message, cause? := some cause, trace := inner.trace, metadata := inner.metadata,
        logger? := none, observer := inner.observer } := by
  rw [freshOver, find?_eq_nearest?, hq, Option.bind_some, hinner]

/-- Where none is near its cause, a new wrapper is made like an error without a cause. -/
theorem freshOver_of_none {cause : Ref} (hcause : s.nearest? cause = none) (message : String)
    (frames : List Frame) :
    s.freshOver cause message frames = { s.fresh message frames with cause? := some cause } := by
  rw [freshOver, find?_eq_nearest?, hcause, Option.bind_none]

/-- A new wrapper has no logger. -/
theorem logger?_freshOver (cause : Ref) (message : String) (frames : List Frame) (s : Store) :
    (s.freshOver cause message frames).logger? = none := by
  unfold freshOver
  split <;> rfl

/-! ### Making decorated errors -/

/-- A decorated error is made alone, or over a cause, and before any envelope around it. -/
theorem Action.decorated_made {a : Action} {i : Nat} {d : Decorated}
    (h : (a.made s)[i]? = some (.decorated d)) :
    i = 0 ∧
      ((∃ message frames levels, a = decorate message frames levels ∧
          d = s.fresh message frames) ∨
        ∃ cause message frames levels, a = wrap cause message frames levels ∧
          d = s.freshOver cause message frames) := by
  cases i with
  | succ i => exact absurd (made_succ h) nofun
  | zero =>
    refine ⟨rfl, ?_⟩
    cases a with
    | decorate message frames levels =>
      cases h
      exact .inl ⟨_, _, _, rfl, rfl⟩
    | wrap cause message frames levels =>
      cases h
      exact .inr ⟨_, _, _, _, rfl, rfl⟩
    | joinGroup r =>
      rw [made] at h
      split at h <;> cases h
    | _ => cases h

/-- The error that was made as decorated is at the next place. -/
theorem decorated?_made {a : Action} {h : History} (hp : Possible h) {d : Decorated}
    (hd : (a.made (after h))[0]? = some (.decorated d)) :
    (after (a :: h)).decorated? (after h).next = some d := by
  rw [decorated?_eq_some_iff, after, ← Nat.add_zero (after h).next,
    Action.body?_apply_new (sound_after hp), hd]

/-- What holds of a decorated error when it is made, and whatever action is taken later, holds after
every run. What is made can rely on the errors that were there before it. -/
theorem decorated_induction {P : History → Ref → Decorated → Prop}
    (made : ∀ a h, Possible (a :: h) → (∀ r d, (after h).decorated? r = some d → P h r d) →
      ∀ d, (a.made (after h))[0]? = some (.decorated d) → P (a :: h) (after h).next d)
    (revise : ∀ a h, Possible (a :: h) → ∀ r d, (after h).decorated? r = some d → P h r d →
      P (a :: h) r (a.revise r d))
    {h : History} (hp : Possible h) {r : Ref} {d : Decorated}
    (hd : (after h).decorated? r = some d) : P h r d := by
  induction h generalizing r d with
  | nil => exact absurd hd nofun
  | cons a h ih =>
    by_cases hr : r < (after h).next
    · rw [decorated?_cons hp hr] at hd
      obtain ⟨d₀, hd₀, rfl⟩ := Option.map_eq_some_iff.mp hd
      exact revise a h hp r d₀ hd₀ (ih hp.1 hd₀)
    · obtain ⟨i, rfl⟩ := Nat.exists_eq_add_of_le (Nat.le_of_not_lt hr)
      rw [decorated?_eq_some_iff, after, Action.body?_apply_new (sound_after hp.1)] at hd
      obtain ⟨rfl, -⟩ := Action.decorated_made hd
      exact made a h hp (fun q e he => ih hp.1 he) d hd

/-- The metadata of a decorated error has no key twice. -/
theorem ascending_metadata {h : History} (hp : Possible h) {d : Decorated}
    (hd : (after h).decorated? r = some d) : d.metadata.Ascending := by
  refine decorated_induction (P := fun _ _ d => d.metadata.Ascending) ?_ ?_ hp hd
  · intro a h _ ih d hmade
    obtain ⟨-, ⟨message, frames, levels, -, rfl⟩ | ⟨cause, message, frames, levels, -, rfl⟩⟩ :=
      Action.decorated_made hmade
    · exact List.Pairwise.nil
    · cases hq : (after h).nearest? cause with
      | none =>
        rw [freshOver_of_none hq]
        exact List.Pairwise.nil
      | some q =>
        obtain ⟨inner, hinner⟩ := exists_decorated_of_nearest? hq
        rw [freshOver_of_nearest hq hinner]
        exact ih q inner hinner
  · intro a h _ r d _ ih
    cases a with
    | edit q e =>
      rw [Action.revise]
      split
      · exact e.ascending_apply ih
      · exact ih
    | _ => exact ih

/-- The beginning of a possible run is possible. -/
theorem possible_of_append {later h : History} (hp : Possible (later ++ h)) : Possible h := by
  induction later with
  | nil => exact hp
  | cons a later ih => exact ih hp.1

/-- What is left of a possible run without its latest actions is possible. -/
theorem possible_of_suffix {h h₀ : History} (hp : Possible h) (hs : h₀ <:+ h) : Possible h₀ := by
  obtain ⟨later, rfl⟩ := hs
  exact possible_of_append hp

/-- A decorated error goes on as one, with the same message, cause and stack. -/
theorem decorated?_after {later h : History} (hp : Possible (later ++ h)) {d : Decorated}
    (hd : (after h).decorated? r = some d) :
    ∃ d', (after (later ++ h)).decorated? r = some d' ∧ d'.message = d.message ∧
      d'.cause? = d.cause? ∧ d'.trace = d.trace := by
  obtain ⟨b, hb, hcont⟩ := continues_after hp (decorated?_eq_some_iff.mp hd)
  cases hcont with
  | same => exact ⟨d, decorated?_eq_some_iff.mpr hb, rfl, rfl, rfl⟩
  | edited message cause trace =>
    exact ⟨_, decorated?_eq_some_iff.mpr hb, message, cause, trace⟩

end Mishap.Store
