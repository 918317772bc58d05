import Mishap.Proofs.Store.Chain

/-!
# Searches for an error

Whatever was built in a run, a search for an error that passes a test, such as to be of some kind,
finds the first one that one comes to, and nothing only if there is none in the whole chain
(`located_of_possible`). Where parts of a joined error are searched, a part without any is left
again, with all that is below it.
-/

namespace Mishap.Store

variable {s : Store} {h : History} {test : Ref → Bool} {r : Ref} {parts : List Ref}

private theorem search?_of_joined (hd : s.Descending) (hother : test r = false)
    (hparts : s.parts? r = some parts) : s.search? test r = parts.findSome? (s.search? test) := by
  rw [search?_of_descending hd, hother, hparts]
  rfl

private theorem search?_eq_none_iff_is (hp : Possible h) (test : Ref → Bool)
    (hr : r < (after h).next) :
    (after h).search? test r = none ↔ ∀ t, (after h).is r t = true → test t = false := by
  rw [search?_eq_none_iff]
  apply forall_congr'
  intro t
  rw [mem_walk_iff (descending_after hp), is_after hp hr]

/-- Joined errors are of the one kind, and no others are of it. -/
theorem isOf_joined (s : Store) (r : Ref) : s.isOf .joined r = (s.parts? r).isSome := by
  unfold isOf parts?
  cases s.body? r with
  | none => rfl
  | some b => cases b <;> rfl

/-- Joined errors are of no other kind. -/
theorem isOf_of_joined (hparts : s.parts? r = some parts) {k : Kind} (hk : k ≠ .joined) :
    s.isOf k r = false := by
  unfold isOf
  rw [parts?_eq_some_iff.mp hparts]
  cases k with
  | joined => exact absurd rfl hk
  | _ => rfl

/-- What searches find: for a test of any kind of error, or of anything else that tells errors from
one another. -/
structure Located (s : Store) : Prop where
  /-- The walk from an error is the error itself, before the walks from the parts of a joined error
  from left to right, or the walk from the source of any other. -/
  walk : ∀ r, s.walk r = r ::
    match s.parts? r with
    | some parts => parts.flatMap s.walk
    | none => ((s.source? r).map s.walk).getD []
  /-- The first in the walk that passes the test is found, -/
  first : ∀ test r t, s.search? test r = some t ↔
    test t = true ∧ ∃ before later, s.walk r = before ++ t :: later ∧
      ∀ q ∈ before, test q = false
  /-- and nothing if there is none. -/
  none_iff : ∀ test r, s.search? test r = none ↔ ∀ t ∈ s.walk r, test t = false
  /-- What is found is in the chain; if nothing is found, none in the chain passes the test. -/
  found_is : ∀ test r t, r < s.next → s.search? test r = some t → s.is r t = true
  none_iff_is : ∀ test r, r < s.next →
    (s.search? test r = none ↔ ∀ t, s.is r t = true → test t = false)
  /-- Of the parts of a joined error that does not itself pass, the first that has one decides. -/
  joined : ∀ test r parts, test r = false → s.parts? r = some parts →
    s.search? test r = parts.findSome? (s.search? test)
  /-- In the chains of the parts before it none passes the test. -/
  backtracks : ∀ test r parts, test r = false → s.parts? r = some parts → ∀ t,
    (s.search? test r = some t ↔ ∃ before part later, parts = before ++ part :: later ∧
      s.search? test part = some t ∧ ∀ q ∈ before, ∀ x, s.is q x = true → test x = false)
  /-- To look for a kind is such a search, and joined errors are of one kind only. -/
  kinds : ∀ k r, s.find? k r = s.search? (s.isOf k) r ∧
    ((s.parts? r).isSome → (s.isOf k r = true ↔ k = .joined))

/-- In every world searches find the first error that passes the test. -/
theorem located_of_possible (hp : Possible h) : Located (after h) where
  walk r := by
    rw [walk_eq (descending_after hp), leads_eq]
    cases (after h).parts? r with
    | some parts => rfl
    | none => cases (after h).source? r <;> simp
  first test r t := search?_eq_some_iff
  none_iff test r := search?_eq_none_iff
  found_is test r t hr ht := by
    obtain ⟨-, before, later, hwalk, -⟩ := search?_eq_some_iff.mp ht
    have hmem : t ∈ (after h).walk r := by simp [hwalk]
    exact (is_after hp hr).mpr ((mem_walk_iff (descending_after hp)).mp hmem)
  none_iff_is test r hr := search?_eq_none_iff_is hp test hr
  joined test r parts hother hparts := search?_of_joined (descending_after hp) hother hparts
  backtracks test r parts hother hparts t := by
    have hd := descending_after hp
    have hr := lt_next_of_body? (parts?_eq_some_iff.mp hparts)
    have hlt : ∀ q ∈ parts, q < (after h).next := fun q hq =>
      Nat.lt_trans (hd.older r q (mem_leads_iff.mpr (.inl ⟨parts, hparts, hq⟩))) hr
    rw [search?_of_joined hd hother hparts, List.findSome?_eq_some_iff]
    constructor
    · rintro ⟨before, part, later, rfl, hfound, hnone⟩
      refine ⟨before, part, later, rfl, hfound, fun q hq => ?_⟩
      have hq' := hlt q (List.mem_append_left _ hq)
      exact (search?_eq_none_iff_is hp test hq').mp (hnone q hq)
    · rintro ⟨before, part, later, rfl, hfound, hnone⟩
      refine ⟨before, part, later, rfl, hfound, fun q hq => ?_⟩
      have hq' := hlt q (List.mem_append_left _ hq)
      exact (search?_eq_none_iff_is hp test hq').mpr (hnone q hq)
  kinds k r := by
    refine ⟨rfl, fun hjoined => ?_⟩
    obtain ⟨parts, hparts⟩ := Option.isSome_iff_exists.mp hjoined
    constructor
    · intro hk
      refine Decidable.byContradiction fun hne => ?_
      rw [isOf_of_joined hparts hne] at hk
      exact absurd hk nofun
    · rintro rfl
      rw [isOf_joined, hjoined]

/-- Below the first part of a joined error lies another joined error, and no decorated one; the
decorated one lies below the second part. -/
def buried : History :=
  [.link "top" 6, .join [4, 5, 0], .link "found" 0, .link "node" 3, .join [1, 2], .leaf "b" 0,
    .leaf "a" 0, .decorate "root" [] 0]

/-- Searches over such an error. -/
theorem located_buried : Possible buried ∧ Located (after buried) :=
  ⟨by decide, located_of_possible (by decide)⟩

example : (after buried).walk 7 = [7, 6, 4, 3, 1, 2, 5, 0, 0] ∧
    (after buried).find? .decorated 7 = some 0 ∧ (after buried).find? .leaf 7 = some 1 ∧
    (after buried).find? .system 7 = none := by
  decide

end Mishap.Store
