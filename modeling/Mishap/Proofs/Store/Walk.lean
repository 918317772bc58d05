import Mathlib.Data.List.Basic
import Mishap.Proofs.Store.Descent

/-!
# Walks over chains

The walk from an error is the list of what one comes to, in the order in which one comes to it: the
error itself, then the walks from its parts, or the walk from its source. Searches ask this list,
for a target (`isFrom_eq`) or for the first error that passes a test (`searchFrom_eq`). Where errors
lead to older ones the walk ends by itself (`walk_eq`), and it holds what can be reached at all
(`mem_walk_iff`).
-/

namespace Mishap.Store

/-- What one comes to from an error in a number of steps. -/
def walkFrom (s : Store) : Nat → Ref → List Ref
  | 0, _ => []
  | fuel + 1, r => r :: (s.leads r).flatMap (walkFrom s fuel)

/-- What one comes to from an error. -/
def walk (s : Store) (r : Ref) : List Ref := s.walkFrom (r + 1) r

/-- What can be reached from an error: the error itself, what can be reached from the parts of a
joined error, and what can be reached from the source of any other. -/
inductive Reaches (s : Store) : Ref → Ref → Prop
  | self (r : Ref) : Reaches s r r
  | part {r q t : Ref} {parts : List Ref} : s.parts? r = some parts → q ∈ parts →
      Reaches s q t → Reaches s r t
  | source {r q t : Ref} : s.parts? r = none → s.source? r = some q →
      Reaches s q t → Reaches s r t

variable {s : Store}

/-- An error leads to the parts of a joined error, and to the source of any other. -/
theorem mem_leads_iff {r q : Ref} :
    q ∈ s.leads r ↔
      (∃ parts, s.parts? r = some parts ∧ q ∈ parts) ∨
        (s.parts? r = none ∧ s.source? r = some q) := by
  rw [leads_eq]
  cases s.parts? r with
  | none => simp
  | some parts => simp

/-- What can be reached from what an error leads to can be reached from the error. -/
theorem Reaches.step {r q t : Ref} (hq : q ∈ s.leads r) (ht : s.Reaches q t) : s.Reaches r t := by
  rcases mem_leads_iff.mp hq with ⟨parts, hparts, hmem⟩ | ⟨hnone, hsource⟩
  · exact .part hparts hmem ht
  · exact .source hnone hsource ht

/-- What can be reached in two ways, one behind the other, can be reached. -/
theorem Reaches.trans {r q t : Ref} (h : s.Reaches r q) (h' : s.Reaches q t) : s.Reaches r t := by
  induction h with
  | self => exact h'
  | part hparts hmem _ ih => exact .part hparts hmem (ih h')
  | source hnone hsource _ ih => exact .source hnone hsource (ih h')

/-- Whatever can be reached is the error itself, or can be reached from what it leads to. -/
theorem reaches_iff {r t : Ref} : s.Reaches r t ↔ r = t ∨ ∃ q ∈ s.leads r, s.Reaches q t := by
  constructor
  · intro h
    cases h with
    | self => exact .inl rfl
    | part hparts hmem ht => exact .inr ⟨_, mem_leads_iff.mpr (.inl ⟨_, hparts, hmem⟩), ht⟩
    | source hnone hsource ht => exact .inr ⟨_, mem_leads_iff.mpr (.inr ⟨hnone, hsource⟩), ht⟩
  · rintro (rfl | ⟨q, hq, ht⟩)
    · exact .self _
    · exact .step hq ht

/-! ### Searches are walks -/

/-- A target is looked for among all that one comes to. -/
theorem isFrom_eq (s : Store) (target : Ref) (fuel : Nat) (r : Ref) :
    s.isFrom target fuel r = (s.walkFrom fuel r).any (s.same · target) := by
  induction fuel generalizing r with
  | zero => rfl
  | succ fuel ih =>
    have hih : s.isFrom target fuel = fun q => (s.walkFrom fuel q).any (s.same · target) :=
      funext ih
    rw [isFrom, walkFrom, List.any_cons, List.any_flatMap, leads_eq, hih]
    cases s.parts? r with
    | some parts => rfl
    | none =>
      cases s.source? r with
      | none => rfl
      | some q => exact congrArg _ (Bool.or_false _).symm

/-- Of the errors that one comes to, the first that passes the test is found. -/
theorem searchFrom_eq (s : Store) (test : Ref → Bool) (fuel : Nat) (r : Ref) :
    s.searchFrom test fuel r = (s.walkFrom fuel r).find? test := by
  induction fuel generalizing r with
  | zero => rfl
  | succ fuel ih =>
    have hih : s.searchFrom test fuel = fun q => (s.walkFrom fuel q).find? test := funext ih
    rw [searchFrom, walkFrom, List.find?_cons]
    cases test r with
    | true => rfl
    | false =>
      rw [List.find?_flatMap, leads_eq, hih]
      cases s.parts? r with
      | some parts => rfl
      | none =>
        cases s.source? r with
        | none => rfl
        | some q =>
          change _ = List.findSome? _ [q]
          rw [List.findSome?_singleton]
          rfl

/-- A target is in the chain if one comes to the same error. -/
theorem is_eq_any (s : Store) (r target : Ref) :
    s.is r target = (s.walk r).any (s.same · target) :=
  isFrom_eq s target (r + 1) r

/-- A search finds the first of the walk that passes the test. -/
theorem search?_eq_find? (s : Store) (test : Ref → Bool) (r : Ref) :
    s.search? test r = (s.walk r).find? test :=
  searchFrom_eq s test (r + 1) r

/-! ### Walks end -/

/-- One more step than the place of an error is enough for its walk. -/
theorem walkFrom_of_lt (hd : s.Descending) {fuel : Nat} {r : Ref} (h : r < fuel) :
    s.walkFrom fuel r = s.walk r := by
  suffices hsame : ∀ fuel fuel' r, r < fuel → r < fuel' →
      s.walkFrom fuel r = s.walkFrom fuel' r from
    hsame fuel (r + 1) r h (Nat.lt_succ_self r)
  intro fuel
  induction fuel with
  | zero => exact fun _ _ h => absurd h (Nat.not_lt_zero _)
  | succ fuel ih =>
    intro fuel' r h h'
    cases fuel' with
    | zero => exact absurd h' (Nat.not_lt_zero _)
    | succ fuel' =>
      have htails : ∀ q ∈ s.leads r, s.walkFrom fuel q = s.walkFrom fuel' q := by
        intro q hq
        have holder := hd.older r q hq
        exact ih fuel' q (Nat.lt_of_lt_of_le holder (Nat.le_of_lt_succ h))
          (Nat.lt_of_lt_of_le holder (Nat.le_of_lt_succ h'))
      rw [walkFrom, walkFrom, List.flatMap_congr htails]

/-- The walk from an error is the error itself and the walks from what it leads to. -/
theorem walk_eq (hd : s.Descending) (r : Ref) :
    s.walk r = r :: (s.leads r).flatMap s.walk := by
  have htails : ∀ q ∈ s.leads r, s.walkFrom r q = s.walk q :=
    fun q hq => walkFrom_of_lt hd (hd.older r q hq)
  rw [walk, walkFrom, List.flatMap_congr htails]

/-- One comes to exactly what can be reached. -/
theorem mem_walk_iff (hd : s.Descending) {r t : Ref} : t ∈ s.walk r ↔ s.Reaches r t := by
  induction r using Nat.strongRecOn with
  | ind r ih =>
    rw [walk_eq hd, List.mem_cons, List.mem_flatMap, reaches_iff]
    refine or_congr eq_comm (exists_congr fun q => and_congr_right fun hq => ?_)
    exact ih q (hd.older r q hq)

/-- What can be reached from an error is no younger. -/
theorem Reaches.le (hd : s.Descending) {r t : Ref} (h : s.Reaches r t) : t ≤ r := by
  induction h with
  | self => exact Nat.le_refl _
  | part hparts hmem _ ih =>
    exact Nat.le_trans ih (Nat.le_of_lt (hd.older _ _ (mem_leads_iff.mpr (.inl ⟨_, hparts, hmem⟩))))
  | source hnone hsource _ ih =>
    exact Nat.le_trans ih (Nat.le_of_lt (hd.older _ _ (mem_leads_iff.mpr (.inr ⟨hnone, hsource⟩))))

/-! ### What a search finds -/

/-- The error that a search finds stands in the walk behind none that passes the test. -/
theorem search?_eq_some_iff {test : Ref → Bool} {r t : Ref} :
    s.search? test r = some t ↔
      test t = true ∧ ∃ before later, s.walk r = before ++ t :: later ∧
        ∀ q ∈ before, test q = false := by
  rw [search?_eq_find?, List.find?_eq_some_iff_append]
  simp

/-- A search finds nothing exactly if none of the walk passes the test. -/
theorem search?_eq_none_iff {test : Ref → Bool} {r : Ref} :
    s.search? test r = none ↔ ∀ t ∈ s.walk r, test t = false := by
  rw [search?_eq_find?, List.find?_eq_none]
  simp

/-- A search looks at the error itself, then goes on with the parts of a joined error from left to
right, and with the source of any other. -/
theorem search?_of_descending (hd : s.Descending) (test : Ref → Bool) (r : Ref) :
    s.search? test r =
      if test r then some r
      else
        match s.parts? r with
        | some parts => parts.findSome? (s.search? test)
        | none => (s.source? r).bind (s.search? test) := by
  have hwalks : (fun q => (s.walk q).find? test) = s.search? test :=
    funext fun q => (search?_eq_find? s test q).symm
  rw [search?_eq_find?, walk_eq hd, List.find?_cons, List.find?_flatMap, leads_eq, hwalks]
  cases test r with
  | true => rfl
  | false =>
    cases s.parts? r with
    | some parts => rfl
    | none => cases s.source? r <;> simp

/-- From a group that was not joined nothing else can be reached. -/
theorem reaches_group_iff {r t : Ref} {g : Group} (hb : s.body? r = some (.group g)) :
    s.Reaches r t ↔ t = r := by
  have hleads : s.leads r = [] := leads_of_body? hb
  rw [reaches_iff, hleads]
  simp [eq_comm]

end Mishap.Store
