import Mishap.Proofs.Store.Identity

/-!
# What is in a chain

In the store after a run, whatever was built in it, an error is in the chain of another exactly if
it can be reached from it (`searched_of_possible`). Being in a chain is a partial order up to being
the same error, and being the same error is being at the same place (`ordered_of_possible`).
-/

namespace Mishap.Store

variable {h : History}

/-! ### Searches -/

/-- What a search in a chain comes to. -/
structure Searched (s : Store) : Prop where
  /-- Every step of a search goes to an older error, so every search ends. -/
  ends : WellFounded fun q r => q ∈ s.leads r
  /-- A search looks at the error itself, then goes on with the parts of a joined error, and with
  the source of any other. -/
  is_eq : ∀ r t, s.is r t =
    (s.same r t ||
      match s.parts? r with
      | some parts => parts.any (s.is · t)
      | none => (s.source? r).any (s.is · t))
  /-- An error that hides another has the source which that has. -/
  veiled : ∀ r inner source?, s.body? r = some (.veiled inner source?) → source? = s.source? inner
  /-- What can be reached is found, and nothing else. -/
  is_iff : ∀ r t, r < s.next → (s.is r t = true ↔ s.Reaches r t)
  /-- The members of a group that was not joined are not reached through it. -/
  group : ∀ r g, s.body? r = some (.group g) → ∀ t, (s.Reaches r t ↔ t = r)
  /-- Decorated and joined errors that are asked themselves give the same answer. -/
  decorated : ∀ r d, s.decorated? r = some d → ∀ t, s.decoratedIs? r t = some (s.is r t)
  joined : ∀ r parts, s.parts? r = some parts → ∀ t, s.joinedIs? r t = some (s.is r t)

/-- What can be reached from an error of the store is in the store. -/
theorem lt_next_of_reaches (hp : Possible h) {r t : Ref} (hr : r < (after h).next)
    (ht : (after h).Reaches r t) : t < (after h).next :=
  Nat.lt_of_le_of_lt (ht.le (descending_after hp)) hr

/-- A target is in the chain of an error exactly if it can be reached. -/
theorem is_after (hp : Possible h) {r t : Ref} (hr : r < (after h).next) :
    (after h).is r t = true ↔ (after h).Reaches r t := by
  have hd := descending_after hp
  rw [is_eq_any, List.any_eq_true]
  constructor
  · rintro ⟨q, hq, hsame⟩
    have hreach := (mem_walk_iff hd).mp hq
    have heq := (same_after hp (lt_next_of_reaches hp hr hreach)).mp hsame
    exact heq ▸ hreach
  · intro hreach
    have hsame := (same_after hp (lt_next_of_reaches hp hr hreach)).mpr rfl
    exact ⟨t, (mem_walk_iff hd).mpr hreach, hsame⟩

private theorem is_eq_of_descending {s : Store} (hd : s.Descending) (r t : Ref) :
    s.is r t =
      (s.same r t ||
        match s.parts? r with
        | some parts => parts.any (s.is · t)
        | none => (s.source? r).any (s.is · t)) := by
  have hwalk : (s.is · t) = fun q => (s.walk q).any (s.same · t) :=
    funext fun q => is_eq_any s q t
  rw [hwalk, is_eq_any, walk_eq hd, List.any_cons, List.any_flatMap, leads_eq]
  cases s.parts? r with
  | some parts => rfl
  | none =>
    cases s.source? r with
    | none => rfl
    | some q => exact congrArg _ (Bool.or_false _)

/-- In every world chains are searched to their end, and hold what can be reached. -/
theorem searched_of_possible (hp : Possible h) : Searched (after h) := by
  have hd := descending_after hp
  refine ⟨Subrelation.wf (fun hq => hd.older _ _ hq) Nat.lt_wfRel.wf, is_eq_of_descending hd,
    hd.veiled, fun r t hr => is_after hp hr, fun r g hb t => reaches_group_iff hb,
    fun r d hd t => ?_, fun r parts hparts t => ?_⟩
  · rw [decoratedIs?, hd, Option.map_some]
  · rw [joinedIs?, hparts, Option.map_some]

/-- A joined error over an error in an envelope, an error that hides one, and a group that was added
to itself and to a joined error. -/
def tangled : History :=
  [.wrap 6 "failed" [] 2, .join [3, 5, 2], .append 4 (some 5), .joinGroup 4, .append 4 (some 4),
    .addGroup, .veil 2, .link "node" 1, .decorate "root" [] 1]

/-- Searches where groups refer to one another in a circle. -/
theorem searched_tangled : Possible tangled ∧ Searched (after tangled) :=
  ⟨by decide, searched_of_possible (by decide)⟩

example : (after tangled).is 9 0 = true ∧ (after tangled).is 9 4 = true ∧
    (after tangled).is 4 5 = false := by
  decide

/-! ### The order of chains -/

/-- An envelope holds an error by value, or holds another that encloses the error. -/
inductive Encloses (s : Store) : Ref → Ref → Prop
  | direct {w e : Ref} : s.body? w = some (.envelope e) → Encloses s w e
  | around {w v e : Ref} : s.body? w = some (.envelope v) → Encloses s v e → Encloses s w e

/-- An envelope is at the place behind what it holds, in the same room. -/
theorem rooms_of_envelope (hp : Possible h) {w e : Ref}
    (hb : (after h).body? w = some (.envelope e)) :
    e < w ∧ (after h).rooms[w]? = (after h).rooms[e]? ∧ (after h).Reaches w e := by
  obtain ⟨room, hroom⟩ := room?_of_lt (lt_next_of_body? hb)
  rcases room_after hp hroom with ⟨-, hbare⟩ | ⟨p, rfl, hb', hinner⟩
  · exact absurd hb (hbare e)
  · cases hb.symm.trans hb'
    have hsource : (after h).source? (e + 1) = some e := by
      rw [source?, hb]
      rfl
    exact ⟨Nat.lt_succ_self e, hroom.trans hinner.symm,
      .step (mem_leads_of_source? hsource) (.self e)⟩

/-- An envelope is younger than what it encloses, has the same room, and reaches it. -/
theorem Encloses.spec (hp : Possible h) {w e : Ref} (he : (after h).Encloses w e) :
    e < w ∧ (after h).rooms[w]? = (after h).rooms[e]? ∧ (after h).Reaches w e := by
  induction he with
  | direct hb => exact rooms_of_envelope hp hb
  | around hb _ ih =>
    obtain ⟨hlt, hroom, hreach⟩ := rooms_of_envelope hp hb
    obtain ⟨hlt', hroom', hreach'⟩ := ih
    exact ⟨Nat.lt_trans hlt' hlt, hroom.trans hroom', hreach.trans hreach'⟩

private theorem Encloses.lt_next {s : Store} {w e : Ref} (he : s.Encloses w e) : w < s.next := by
  cases he with
  | direct hb => exact lt_next_of_body? hb
  | around hb _ => exact lt_next_of_body? hb

/-- How errors are told apart, and how their chains are ordered. -/
structure Ordered (s : Store) : Prop where
  /-- The count of sources in the block of an error goes from source to source. -/
  nested_eq : ∀ r, r < s.next → s.nested r =
    match s.source? r with
    | none => 0
    | some q => if s.block? q = s.block? r then s.nested q + 1 else 0
  /-- Block, width and that count are the same for an error and itself alone. -/
  same_iff : ∀ a b, a < s.next → b < s.next → (s.same a b = true ↔ a = b)
  refl : ∀ a, s.is a a = true
  trans : ∀ a b c, a < s.next → b < s.next → s.is a b = true → s.is b c = true → s.is a c = true
  antisymm : ∀ a b, a < s.next → b < s.next → s.is a b = true → s.is b a = true →
    s.same a b = true
  /-- An error is never taken for an envelope around it, with which it shares block and width. -/
  encloses : ∀ w e, s.Encloses w e →
    s.block? w = s.block? e ∧ s.width? w = s.width? e ∧ s.same w e = false ∧ s.same e w = false ∧
      s.is w e = true ∧ s.is e w = false

/-- In every world to be in a chain is an order. -/
theorem ordered_of_possible (hp : Possible h) : Ordered (after h) where
  nested_eq _ hr := nested_eq hp hr
  same_iff _ _ ha _ := same_after hp ha
  refl a := by
    rw [is_eq_of_descending (descending_after hp), same]
    simp
  trans a b c ha hb hab hbc :=
    (is_after hp ha).mpr (((is_after hp ha).mp hab).trans ((is_after hp hb).mp hbc))
  antisymm a b ha hb hab hba := by
    have hd := descending_after hp
    have hle := ((is_after hp ha).mp hab).le hd
    have hge := ((is_after hp hb).mp hba).le hd
    exact (same_after hp ha).mpr (Nat.le_antisymm hge hle)
  encloses w e he := by
    obtain ⟨hlt, hroom, hreach⟩ := he.spec hp
    have hw := he.lt_next
    have hwider := Nat.lt_trans hlt hw
    refine ⟨?_, ?_, ?_, ?_, (is_after hp hw).mpr hreach, ?_⟩
    · rw [block?_eq, block?_eq, hroom]
    · rw [width?_eq, width?_eq, hroom]
    · rw [← Bool.not_eq_true, same_after hp hw]
      exact Nat.ne_of_gt hlt
    · rw [← Bool.not_eq_true, same_after hp hwider]
      exact Nat.ne_of_lt hlt
    · rw [← Bool.not_eq_true, is_after hp hwider]
      exact fun hback => absurd (hback.le (descending_after hp)) (Nat.not_le.mpr hlt)

/-- An error in two envelopes is the cause of another in one. -/
def enveloped : History := [.wrap 2 "query" [] 1, .decorate "db" [] 2]

/-- The order of errors in envelopes of envelopes. -/
theorem ordered_enveloped : Possible enveloped ∧ Ordered (after enveloped) :=
  ⟨by decide, ordered_of_possible (by decide)⟩

example : (after enveloped).block? 2 = (after enveloped).block? 0 ∧
    (after enveloped).nested 2 = 2 ∧ (after enveloped).is 4 1 = true ∧
    (after enveloped).is 0 2 = false := by
  decide

end Mishap.Store
