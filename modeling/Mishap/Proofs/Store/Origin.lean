import Mishap.Proofs.Store.Nearest

/-!
# The origins of stacks

An error that was made without a cause is its own origin, and so is a wrapper whose cause leads to
no decorated error; any other wrapper has the origin of the decorated error nearest to its cause.
An error has the stack that was captured for its origin (`Origin.trace_eq`), so errors share a stack
exactly if they have one origin (`captured_of_possible`).
-/

namespace Mishap.Store

variable {h : History} {r o : Ref}

/-- In a run an error was made at a place by an action, after an earlier run. -/
def MadeBy (h : History) (r : Ref) (a : Action) (h₀ : History) : Prop :=
  (∃ later, h = later ++ a :: h₀) ∧ r = (after h₀).next

/-- The error for which the stack of a decorated error was captured. -/
inductive Origin (h : History) : Ref → Ref → Prop
  | alone {r : Ref} {h₀ : History} {message : String} {frames : List Frame} {levels : Nat} :
      MadeBy h r (.decorate message frames levels) h₀ → Origin h r r
  | bare {r cause : Ref} {h₀ : History} {message : String} {frames : List Frame} {levels : Nat} :
      MadeBy h r (.wrap cause message frames levels) h₀ →
      (∀ t, (after h₀).Reaches cause t → (after h₀).decorated? t = none) → Origin h r r
  | nearest {r cause q o : Ref} {h₀ : History} {message : String} {frames : List Frame}
      {levels : Nat} :
      MadeBy h r (.wrap cause message frames levels) h₀ →
      (after h₀).nearest? cause = some q → Origin h q o → Origin h r o

/-- What an action made stays made by it. -/
theorem MadeBy.cons {a b : Action} {h₀ : History} (hm : MadeBy h r a h₀) :
    MadeBy (b :: h) r a h₀ := by
  obtain ⟨⟨later, rfl⟩, hr⟩ := hm
  exact ⟨⟨b :: later, rfl⟩, hr⟩

/-- Whatever is done later, an error keeps its origin. -/
theorem Origin.cons (a : Action) (ho : Origin h r o) : Origin (a :: h) r o := by
  induction ho with
  | alone hm => exact .alone hm.cons
  | bare hm hbare => exact .bare hm.cons hbare
  | nearest hm hq _ ih => exact .nearest hm.cons hq ih

/-! ### The stack of the origin -/

/-- What was there when an error was made keeps its stack. -/
theorem MadeBy.kept (hp : Possible h) {a : Action} {h₀ : History} (hm : MadeBy h r a h₀) {q : Ref}
    {d₀ : Decorated} (hd₀ : (after h₀).decorated? q = some d₀) :
    ∃ d, (after h).decorated? q = some d ∧ d.trace = d₀.trace := by
  obtain ⟨⟨later, rfl⟩, -⟩ := hm
  have hlater : Possible ((later ++ [a]) ++ h₀) := by simpa using hp
  obtain ⟨d, hd, -, -, htrace⟩ := decorated?_after hlater hd₀
  exact ⟨d, by simpa using hd, htrace⟩

/-- A decorated error has the stack with which it was made. -/
theorem MadeBy.trace_eq (hp : Possible h) {a : Action} {h₀ : History} (hm : MadeBy h r a h₀)
    {d₀ : Decorated} (hd₀ : (a.made (after h₀))[0]? = some (.decorated d₀)) :
    ∃ d, (after h).decorated? r = some d ∧ d.trace = d₀.trace := by
  obtain ⟨⟨later, rfl⟩, rfl⟩ := hm
  have hmade := decorated?_made (possible_of_append hp).1 hd₀
  obtain ⟨d, hd, -, -, htrace⟩ := decorated?_after hp hmade
  exact ⟨d, hd, htrace⟩

/-- An error has the stack that was captured for its origin. -/
theorem Origin.trace_eq (hp : Possible h) (ho : Origin h r o) :
    ∃ d e, (after h).decorated? r = some d ∧ (after h).decorated? o = some e ∧
      d.trace = e.trace ∧ e.trace.capture = o := by
  induction ho with
  | @alone r h₀ message frames levels hm =>
    obtain ⟨d, hd, htrace⟩ := hm.trace_eq hp rfl
    exact ⟨d, d, hd, hd, rfl, by rw [htrace, hm.2, fresh]⟩
  | @bare r cause h₀ message frames levels hm hbare =>
    obtain ⟨d, hd, htrace⟩ := hm.trace_eq hp rfl
    obtain ⟨later, rfl⟩ := hm.1
    have hdesc := descending_after (possible_of_append hp).1
    rw [freshOver_of_none ((nearest?_eq_none_iff hdesc).mpr hbare)] at htrace
    exact ⟨d, d, hd, hd, rfl, by rw [htrace, hm.2, fresh]⟩
  | @nearest r cause q o h₀ message frames levels hm hq _ ih =>
    obtain ⟨d, hd, htrace⟩ := hm.trace_eq hp rfl
    obtain ⟨dq, e, hdq, he, hshared, hcapture⟩ := ih
    -- The nearest error still has the stack that it had when it was wrapped.
    obtain ⟨inner, hinner⟩ := exists_decorated_of_nearest? hq
    obtain ⟨dq', hdq', hkept⟩ := hm.kept hp hinner
    cases hdq.symm.trans hdq'
    rw [freshOver_of_nearest hq hinner] at htrace
    exact ⟨d, e, hd, he, by rw [htrace, ← hshared, hkept], hcapture⟩

/-- Every decorated error has an origin, the one that its stack was captured for. -/
theorem origin_of_decorated (hp : Possible h) {d : Decorated}
    (hd : (after h).decorated? r = some d) : Origin h r d.trace.capture := by
  refine decorated_induction (P := fun h r d => Origin h r d.trace.capture) ?_ ?_ hp hd
  · intro a h hp ih d hmade
    obtain ⟨-, ⟨message, frames, levels, rfl, rfl⟩ | ⟨cause, message, frames, levels, rfl, rfl⟩⟩ :=
      Action.decorated_made hmade
    · exact .alone ⟨⟨[], rfl⟩, rfl⟩
    · have hm : MadeBy (.wrap cause message frames levels :: h) (after h).next
          (.wrap cause message frames levels) h := ⟨⟨[], rfl⟩, rfl⟩
      cases hq : (after h).nearest? cause with
      | none =>
        rw [freshOver_of_none hq]
        exact .bare hm ((nearest?_eq_none_iff (descending_after hp.1)).mp hq)
      | some q =>
        obtain ⟨inner, hinner⟩ := exists_decorated_of_nearest? hq
        rw [freshOver_of_nearest hq hinner]
        exact .nearest hm hq ((ih q inner hinner).cons _)
  · intro a h hp r d hd ho
    have htrace : (a.revise r d).trace = d.trace := by
      cases a with
      | edit q e =>
        rw [Action.revise]
        split
        · exact (e.apply_frame d).2.2
        · rfl
      | _ => rfl
    rw [htrace]
    exact ho.cons a

/-- The origin of an error is what its stack was captured for. -/
theorem origin_iff (hp : Possible h) :
    Origin h r o ↔ ∃ d, (after h).decorated? r = some d ∧ d.trace.capture = o := by
  constructor
  · intro ho
    obtain ⟨d, e, hd, -, htrace, hcapture⟩ := ho.trace_eq hp
    exact ⟨d, hd, htrace ▸ hcapture⟩
  · rintro ⟨d, hd, rfl⟩
    exact origin_of_decorated hp hd

/-! ### Sharing -/

/-- How decorated errors come by their stacks, and which of them share one. -/
structure Captured (h : History) : Prop where
  /-- Every decorated error has exactly one origin, which is a decorated error, is its own origin
  and has the same stack. -/
  origin : ∀ r d, (after h).decorated? r = some d → ∃ o e, (∀ o', Origin h r o' ↔ o' = o) ∧
    (after h).decorated? o = some e ∧ Origin h o o ∧ e.trace = d.trace
  /-- Errors share a stack exactly if they have the same origin. -/
  shared : ∀ a b d e, (after h).decorated? a = some d → (after h).decorated? b = some e →
    (d.trace.sameCapture e.trace = true ↔ ∃ o, Origin h a o ∧ Origin h b o)
  /-- At every moment a search for the nearest decorated error looks at an error itself, then goes
  on with the parts of a joined error from left to right, and with the source of any other. -/
  search : ∀ later h₀, h = later ++ h₀ → ∀ r,
    (after h₀).find? .decorated r = (after h₀).nearest? r ∧
    (after h₀).nearest? r =
      if ((after h₀).decorated? r).isSome then some r
      else
        match (after h₀).parts? r with
        | some parts => parts.findSome? (after h₀).nearest?
        | none => ((after h₀).source? r).bind (after h₀).nearest?
  /-- Through whatever the nearest decorated error was found, a wrapper has its origin. -/
  wrapper : ∀ r cause message frames levels h₀, MadeBy h r (.wrap cause message frames levels) h₀ →
    ∀ q, (after h₀).nearest? cause = some q → ∀ o, (Origin h r o ↔ Origin h q o)
  /-- A wrapper of a group that was not joined is its own origin, whatever the group contains. -/
  group : ∀ r cause message frames levels h₀, MadeBy h r (.wrap cause message frames levels) h₀ →
    ∀ g, (after h₀).body? cause = some (.group g) → Origin h r r

/-- In every world stacks are shared by errors of one origin, and by no others. -/
theorem captured_of_possible (hp : Possible h) : Captured h := by
  have hearlier : ∀ {later h₀ : History}, h = later ++ h₀ → Possible h₀ := by
    rintro later h₀ rfl
    exact possible_of_append hp
  have hunique : ∀ {r o o'}, Origin h r o → Origin h r o' → o' = o := by
    intro r o o' ho ho'
    obtain ⟨d, hd, rfl⟩ := (origin_iff hp).mp ho
    obtain ⟨d', hd', rfl⟩ := (origin_iff hp).mp ho'
    cases hd.symm.trans hd'
    rfl
  refine ⟨fun r d hd => ?_, fun a b d e hd he => ?_, fun later h₀ hh r => ?_, ?_, ?_⟩
  · have ho := origin_of_decorated hp hd
    obtain ⟨d', e, hd', he, htrace, hcapture⟩ := ho.trace_eq hp
    cases hd.symm.trans hd'
    refine ⟨_, e, fun o' => ⟨hunique ho, fun heq => heq ▸ ho⟩, he, ?_, htrace.symm⟩
    exact (origin_iff hp).mpr ⟨e, he, hcapture⟩
  · rw [Trace.sameCapture, beq_iff_eq]
    constructor
    · intro hsame
      exact ⟨_, origin_of_decorated hp hd, hsame ▸ origin_of_decorated hp he⟩
    · rintro ⟨o, ha, hb⟩
      exact (hunique ha (origin_of_decorated hp hd)).trans
        (hunique hb (origin_of_decorated hp he)).symm
  · exact ⟨find?_eq_nearest? _ r, nearest?_eq (descending_after (hearlier hh)) r⟩
  · intro r cause message frames levels h₀ hm q hq o
    constructor
    · intro ho
      obtain ⟨inner, hinner⟩ := exists_decorated_of_nearest? hq
      obtain ⟨d, hd, -⟩ := hm.kept hp hinner
      have hoq := origin_of_decorated hp hd
      exact hunique ho (.nearest hm hq hoq) ▸ hoq
    · exact .nearest hm hq
  · intro r cause message frames levels h₀ hm g hg
    obtain ⟨later, hh⟩ := hm.1
    have hdesc := descending_after (hearlier hh).1
    exact .bare hm ((nearest?_eq_none_iff hdesc).mp (nearest?_of_group hdesc hg))

/-- Two decorated errors compete in a joined error, one of them in an envelope below another error;
the joined error, its wrapper and a group of the other are wrapped. -/
def contested : History :=
  [.wrap 5 "again" [] 0, .wrap 6 "grouped" [] 0, .append 6 (some 3), .addGroup,
    .wrap 4 "joined" [] 0, .join [2, 3], .decorate "other" [] 0, .link "node" 1,
    .decorate "root" [] 1]

/-- Stacks of wrappers over joined errors and groups. -/
theorem captured_contested : Possible contested ∧ Captured contested :=
  ⟨by decide, captured_of_possible (by decide)⟩

example : [0, 3, 5, 7, 8].map (fun r => ((after contested).decorated? r).map (·.trace.capture)) =
    [some 0, some 3, some 0, some 7, some 0] := by
  decide

end Mishap.Store
