import Mishap.Proofs.Store.Step

/-!
# Runs

A run is a list of actions, the newest first, from the empty store on. It is possible if each
action was allowed when it was taken. The store after a possible run is sound.
-/

namespace Mishap.Store

/-- Actions, the newest first. -/
abbrev History := List Action

/-- The store after a run. -/
def after : History → Store
  | [] => empty
  | a :: h => (a.apply (after h)).1

/-- What a run lets others notice, in the order in which it happens. -/
def effects : History → List Effect
  | [] => []
  | a :: h => effects h ++ (a.apply (after h)).2

/-- Each action was allowed when it was taken. -/
def Possible : History → Prop
  | [] => True
  | a :: h => Possible h ∧ (after h).Allowed a

instance Possible.decidable : (h : History) → Decidable (Possible h)
  | [] => inferInstanceAs (Decidable True)
  | a :: h =>
    have := Possible.decidable h
    inferInstanceAs (Decidable (Possible h ∧ (after h).Allowed a))

/-- Every possible run leaves a sound store. -/
theorem sound_after {h : History} (hp : Possible h) : (after h).Sound := by
  induction h with
  | nil => exact sound_empty
  | cons a h ih => exact Action.sound_apply (ih hp.1) hp.2

/-- No place is ever given up. -/
theorem next_le_cons {a : Action} {h : History} (hp : Possible (a :: h)) :
    (after h).next ≤ (after (a :: h)).next := by
  rw [after, Action.next_apply (sound_after hp.1)]
  exact Nat.le_add_right _ _

/-- What is dead stays dead. -/
theorem mem_living_of_cons {a : Action} {h : History} (hp : Possible (a :: h)) {r : Ref}
    (hlt : r < (after h).next) (hr : r ∈ (after (a :: h)).living) : r ∈ (after h).living :=
  Action.mem_living_of_apply (sound_after hp.1) hp.2 hlt hr

/-- An action that was given an error came after the error. -/
theorem lt_next_of_given {h : History} (hp : Possible h) {a : Action} (ha : a ∈ h) {r : Ref}
    (hr : r ∈ a.refs) : r < (after h).next := by
  induction h with
  | nil => exact absurd ha List.not_mem_nil
  | cons b h ih =>
    refine Nat.lt_of_lt_of_le ?_ (next_le_cons hp)
    rcases List.mem_cons.mp ha with rfl | ha
    · exact lt_next_of_mem_living (hp.2.1 r hr)
    · exact ih hp.1 ha

end Mishap.Store
