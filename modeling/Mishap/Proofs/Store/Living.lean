import Mishap.Store.Holding

/-!
# The living errors

The living errors are the largest collection of places each of which is held from outside or by
another of the collection (`mem_living_iff`). Two comparisons follow: what lives stays alive where
no hold is lost (`living_subset`), and what is dead stays dead where holds are put on the living
alone (`mem_living_of_later`).
-/

namespace Mishap.Store

/-- Each of the places is there, and is held from outside or by another of them. -/
def SelfHeld (s : Store) (S : Ref → Prop) : Prop :=
  ∀ r, S r → r < s.next ∧ (r ∈ s.roots ∨ ∃ q b, S q ∧ s.body? q = some b ∧ r ∈ b.holds)

private theorem heldAmong_iff (s : Store) (candidates : List Ref) (r : Ref) :
    s.heldAmong candidates r = true ↔
      r ∈ s.roots ∨ ∃ q b, q ∈ candidates ∧ s.body? q = some b ∧ r ∈ b.holds := by
  rw [heldAmong, Bool.or_eq_true, List.elem_iff, List.any_eq_true]
  constructor
  · rintro (h | ⟨q, hq, h⟩)
    · exact .inl h
    · obtain ⟨b, hb, hr⟩ := (Option.any_eq_true _ _).mp h
      exact .inr ⟨q, b, hq, hb, List.elem_iff.mp hr⟩
  · rintro (h | ⟨q, b, hq, hb, hr⟩)
    · exact .inl h
    · exact .inr ⟨q, hq, (Option.any_eq_true _ _).mpr ⟨b, hb, List.elem_iff.mpr hr⟩⟩

private theorem settleFrom_subset (s : Store) (fuel : Nat) (candidates : List Ref) :
    ∀ r ∈ s.settleFrom fuel candidates, r ∈ candidates := by
  induction fuel generalizing candidates with
  | zero => exact fun r hr => hr
  | succ fuel ih =>
    intro r hr
    rw [settleFrom] at hr
    split at hr
    · exact hr
    · exact (List.mem_filter.mp (ih _ r hr)).1

private theorem settleFrom_held (s : Store) (fuel : Nat) (candidates : List Ref)
    (hfuel : candidates.length ≤ fuel) :
    ∀ r ∈ s.settleFrom fuel candidates, s.heldAmong (s.settleFrom fuel candidates) r = true := by
  -- With a round for each candidate, whatever is left is held by the rest of what is left.
  induction fuel generalizing candidates with
  | zero =>
    have hnil : candidates = [] := List.length_eq_zero_iff.mp (Nat.le_zero.mp hfuel)
    subst hnil
    exact fun r hr => absurd hr List.not_mem_nil
  | succ fuel ih =>
    rw [settleFrom]
    have hle := List.length_filter_le (s.heldAmong candidates) candidates
    split
    · next h => exact List.length_filter_eq_length_iff.mp h
    · exact ih _ (by omega)

private theorem settleFrom_keeps (s : Store) {S : Ref → Prop} (hS : s.SelfHeld S) (fuel : Nat)
    (candidates : List Ref) (h : ∀ r, S r → r ∈ candidates) :
    ∀ r, S r → r ∈ s.settleFrom fuel candidates := by
  -- No round takes out one of the places that hold one another.
  induction fuel generalizing candidates with
  | zero => exact h
  | succ fuel ih =>
    rw [settleFrom]
    split
    · exact h
    · refine ih _ fun r hr => List.mem_filter.mpr ⟨h r hr, (heldAmong_iff s candidates r).mpr ?_⟩
      rcases (hS r hr).2 with hroot | ⟨q, b, hq, hb, hrb⟩
      · exact .inl hroot
      · exact .inr ⟨q, b, h q hq, hb, hrb⟩

/-- The living hold one another. -/
theorem selfHeld_living (s : Store) : s.SelfHeld (· ∈ s.living) := by
  intro r hr
  have hlt := settleFrom_subset s _ _ r hr
  have hheld := settleFrom_held s _ _ (Nat.le_of_eq List.length_range) r hr
  refine ⟨List.mem_range.mp hlt, ?_⟩
  rcases (heldAmong_iff s _ r).mp hheld with hroot | ⟨q, b, hq, hb, hrb⟩
  · exact .inl hroot
  · exact .inr ⟨q, b, hq, hb, hrb⟩

/-- A place lives exactly if it is one of some that hold one another. -/
theorem mem_living_iff (s : Store) (r : Ref) : r ∈ s.living ↔ ∃ S, s.SelfHeld S ∧ S r := by
  constructor
  · intro hr
    exact ⟨_, selfHeld_living s, hr⟩
  · rintro ⟨S, hS, hr⟩
    exact settleFrom_keeps s hS _ _ (fun q hq => List.mem_range.mpr (hS q hq).1) r hr

/-- What lives is in the store. -/
theorem lt_next_of_mem_living {s : Store} {r : Ref} (h : r ∈ s.living) : r < s.next :=
  (selfHeld_living s r h).1

/-- Whatever is held from outside or by the living lives. -/
theorem mem_living_of_held {s : Store} {r : Ref} (hlt : r < s.next)
    (h : r ∈ s.roots ∨ ∃ q b, q ∈ s.living ∧ s.body? q = some b ∧ r ∈ b.holds) :
    r ∈ s.living := by
  refine (mem_living_iff s r).mpr ⟨fun x => x ∈ s.living ∨ x = r, ?_, .inr rfl⟩
  rintro x (hx | rfl)
  · obtain ⟨hlt, hroot | ⟨q, b, hq, hb, hxb⟩⟩ := selfHeld_living s x hx
    · exact ⟨hlt, .inl hroot⟩
    · exact ⟨hlt, .inr ⟨q, b, .inl hq, hb, hxb⟩⟩
  · obtain hroot | ⟨q, b, hq, hb, hxb⟩ := h
    · exact ⟨hlt, .inl hroot⟩
    · exact ⟨hlt, .inr ⟨q, b, .inl hq, hb, hxb⟩⟩

/-- What lives stays alive where the holds from outside, and those of the living, stay. -/
theorem living_subset {s s' : Store} (hnext : s.next ≤ s'.next)
    (hroots : ∀ r ∈ s.roots, r ∈ s'.roots)
    (hholds : ∀ q ∈ s.living, ∀ b, s.body? q = some b →
      ∃ b', s'.body? q = some b' ∧ ∀ r ∈ b.holds, r ∈ b'.holds) :
    ∀ r ∈ s.living, r ∈ s'.living := by
  intro r hr
  refine (mem_living_iff s' r).mpr ⟨(· ∈ s.living), fun x hx => ?_, hr⟩
  obtain ⟨hlt, hroot | ⟨q, b, hq, hb, hxb⟩⟩ := selfHeld_living s x hx
  · exact ⟨Nat.lt_of_lt_of_le hlt hnext, .inl (hroots x hroot)⟩
  · obtain ⟨b', hb', hsub⟩ := hholds q hq b hb
    exact ⟨Nat.lt_of_lt_of_le hlt hnext, .inr ⟨q, b', hq, hb', hsub x hxb⟩⟩

/-- What is dead stays dead where no hold is put on an old place that is dead. -/
theorem mem_living_of_later {s s' : Store}
    (hroots : ∀ r ∈ s'.roots, r < s.next → r ∈ s.roots ∨ r ∈ s.living)
    (hholds : ∀ q b', s'.body? q = some b' → ∀ r ∈ b'.holds, r < s.next →
      r ∈ s.living ∨ ∃ b, s.body? q = some b ∧ r ∈ b.holds)
    {r : Ref} (hlt : r < s.next) (h : r ∈ s'.living) : r ∈ s.living := by
  refine (mem_living_iff s r).mpr
    ⟨fun x => x ∈ s.living ∨ (x < s.next ∧ x ∈ s'.living), ?_, .inr ⟨hlt, h⟩⟩
  -- A living place of `s` is held in `s`; an old one that lives in `s'` is held there, and each
  -- hold of `s'` on it is a hold of `s` or on the living of `s`.
  have hliving : ∀ x ∈ s.living, x < s.next ∧ (x ∈ s.roots ∨ ∃ q b,
      (q ∈ s.living ∨ (q < s.next ∧ q ∈ s'.living)) ∧ s.body? q = some b ∧ x ∈ b.holds) := by
    intro x hx
    obtain ⟨hlt, hroot | ⟨q, b, hq, hb, hxb⟩⟩ := selfHeld_living s x hx
    · exact ⟨hlt, .inl hroot⟩
    · exact ⟨hlt, .inr ⟨q, b, .inl hq, hb, hxb⟩⟩
  rintro x (hx | ⟨hxlt, hx⟩)
  · exact hliving x hx
  · obtain ⟨-, hroot | ⟨q, b', hq, hb', hxb⟩⟩ := selfHeld_living s' x hx
    · rcases hroots x hroot hxlt with hold | hold
      · exact ⟨hxlt, .inl hold⟩
      · exact hliving x hold
    · rcases hholds q b' hb' x hxb hxlt with hold | ⟨b, hb, hxb⟩
      · exact hliving x hold
      · exact ⟨hxlt, .inr ⟨q, b, .inr ⟨lt_next_of_body? hb, hq⟩, hb, hxb⟩⟩

end Mishap.Store
