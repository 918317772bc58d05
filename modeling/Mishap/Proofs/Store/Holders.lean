import Mishap.Proofs.Store.Grounded
import Mishap.Proofs.Store.Pooling

/-!
# Holders of pooled groups

An error has a holder if it is held from outside, or by another error that has a holder. Where no
group contains itself, the errors with holders are the living ones (`mem_living_iff_held`), so a
group from a pool keeps its buffer as long as it has a holder and was not released, and gives it
back in the very action that releases it or takes its last holder away. The same action brings back
the buffers of the groups that were held through its members alone (`custody_of_possible`).
-/

namespace Mishap

namespace Store

/-- The errors that an error holds. -/
def holdings (s : Store) (r : Ref) : List Ref := ((s.body? r).map Body.holds).getD []

/-- An error is held from outside, or by one that is so held and through which holds count. -/
inductive HeldThrough (s : Store) (counts : Ref → Prop) : Ref → Prop
  | outside {r : Ref} (root : r ∈ s.roots) : HeldThrough s counts r
  | inside {q r : Ref} (holder : HeldThrough s counts q) (counted : counts q)
    (holds : r ∈ s.holdings q) : HeldThrough s counts r

/-- An error has a holder. -/
def Held (s : Store) : Ref → Prop := s.HeldThrough fun _ => True

/-- No group contains itself: it does not come to hold itself. -/
def Untangled (s : Store) : Prop :=
  ∀ r g, s.body? r = some (.group g) → ¬ Relation.TransGen (fun r q => q ∈ s.holdings r) r r

variable {s : Store} {r q : Ref}

private theorem mem_holdings_iff : q ∈ s.holdings r ↔ ∃ b, s.body? r = some b ∧ q ∈ b.holds := by
  rw [holdings]
  cases s.body? r <;> simp

/-- Where what is held has a smaller number than what holds it, nothing holds itself. -/
theorem untangled_of_rank (rank : Ref → Nat)
    (h : ∀ r < s.next, ∀ q ∈ s.holdings r, rank q < rank r) : s.Untangled := by
  intro r g _ hpath
  have hlt : ∀ {q}, Relation.TransGen (fun r q => q ∈ s.holdings r) r q → rank q < rank r := by
    intro q hpath
    have hstep : ∀ {r q}, q ∈ s.holdings r → rank q < rank r := fun hq => by
      obtain ⟨b, hb, -⟩ := mem_holdings_iff.mp hq
      exact h _ (lt_next_of_body? hb) _ hq
    induction hpath with
    | single hq => exact hstep hq
    | tail _ hq ih => exact Nat.lt_trans (hstep hq) ih
  exact Nat.lt_irrefl _ (hlt hpath)

/-- What has a holder lives. -/
theorem mem_living_of_heldThrough {counts : Ref → Prop} (hs : s.Sound)
    (hroots : ∀ r ∈ s.roots, r < s.next) (h : s.HeldThrough counts r) : r ∈ s.living := by
  induction h with
  | outside hroot => exact mem_living_of_held (hroots _ hroot) (.inl hroot)
  | inside _ _ hholds ih =>
    obtain ⟨b, hb, hmem⟩ := mem_holdings_iff.mp hholds
    exact hs.mem_living ih hb hmem

/-- What is held through errors that count is held through those that count in a wider sense. -/
theorem HeldThrough.imp {counts counts' : Ref → Prop}
    (himp : ∀ q, s.HeldThrough counts q → counts q → counts' q) (h : s.HeldThrough counts r) :
    s.HeldThrough counts' r := by
  induction h with
  | outside hroot => exact .outside hroot
  | inside hholder hcounted hholds ih => exact .inside ih (himp _ hholder hcounted) hholds

/-! ### Holders and the living -/

private theorem lt_next_of_mem_rootsAfter {a : Action} (hs : s.Sound)
    (hroots : ∀ r ∈ s.roots, r < s.next) (ha : s.Allowed a) (h : r ∈ a.rootsAfter s) :
    r < (a.apply s).1.next := by
  have hold : ∀ q < s.next, q < (a.apply s).1.next := fun q hq =>
    Action.next_apply hs a ▸ Nat.lt_add_right _ hq
  unfold Action.rootsAfter at h
  split at h
  · rcases List.mem_cons.mp h with rfl | h
    · exact hold _ (lt_next_of_mem_living (ha.1 _ (List.mem_singleton.mpr rfl)))
    · exact hold _ (hroots _ h)
  · exact hold _ (hroots _ (List.mem_of_mem_erase h))
  · rcases List.mem_append.mp h with hnew | h
    · unfold Action.newest at hnew
      split at hnew
      · exact absurd hnew List.not_mem_nil
      · next n hlen =>
        rw [List.mem_singleton.mp hnew, Action.next_apply hs, hlen]
        exact Nat.add_lt_add_left (Nat.lt_succ_self n) _
    · exact hold _ (hroots _ h)

private theorem roots_lt_after {h : History} (hp : Possible h) :
    ∀ r ∈ (after h).roots, r < (after h).next := by
  induction h with
  | nil => exact fun r hr => absurd hr List.not_mem_nil
  | cons a h ih =>
    intro r hr
    rw [after, Action.roots_apply (sound_after hp.1)] at hr
    exact lt_next_of_mem_rootsAfter (sound_after hp.1) (ih hp.1) hp.2 hr

/-- Where no group contains itself, one comes from held to holder only so often. -/
theorem wellFounded_holder {h : History} (hp : Possible h) (hu : (after h).Untangled) :
    WellFounded fun q r => r ∈ (after h).holdings q := by
  refine wellFounded_of_irrefl (n := (after h).next) (fun hr => ?_)
    (irrefl_of_groups hp mem_holdings_iff.mp hu)
  obtain ⟨b, hb, hmem⟩ := mem_holdings_iff.mp hr
  exact ⟨lt_next_of_body? hb, (sound_after hp).held_lt _ b hb _ hmem⟩

/-- Where no group contains itself, the living are those with a holder. -/
theorem mem_living_iff_held {h : History} (hp : Possible h) (hu : (after h).Untangled) :
    r ∈ (after h).living ↔ (after h).Held r := by
  refine ⟨fun hlive => ?_, mem_living_of_heldThrough (sound_after hp) (roots_lt_after hp)⟩
  induction r using (wellFounded_holder hp hu).induction with
  | _ r ih =>
    rcases (selfHeld_living (after h) r hlive).2 with hroot | ⟨q, b, hq, hb, hmem⟩
    · exact .outside hroot
    · have hholds := mem_holdings_iff.mpr ⟨b, hb, hmem⟩
      exact .inside (ih q hholds hq) trivial hholds

/-! ### Buffers -/

/-- A group belongs to its pool until it is released or has no holder any more. -/
theorem poolOf?_iff_held {h : History} (hp : Possible h) (hu : (after h).Untangled) (r : Ref)
    (p : Nat) :
    (after h).poolOf? r = some p ↔
      takenFrom? h r = some p ∧ released h r = false ∧ (after h).Held r := by
  rw [poolOf?_after hp, mem_living_iff_held hp hu]

section

variable {a : Action} {h : History}

/-- A group of a pool gives its buffer back in the action that releases it, or that takes its last
holder away. -/
theorem returnsIn_iff_held (hp : Possible (a :: h)) (hu : (after h).Untangled)
    (hu' : (after (a :: h)).Untangled) (r : Ref) :
    returnsIn a h r = true ↔
      (takenFrom? h r).isSome ∧ released h r = false ∧ (after h).Held r ∧
        (a = .release r ∨ ¬ (after (a :: h)).Held r) := by
  rw [returnsIn_iff hp, mem_living_iff_held hp.1 hu, mem_living_iff_held hp hu']

/-- The action gives up the members of a group: the group gives its buffer back, or is emptied, or
has no holder any more. -/
def GivesUp (a : Action) (h : History) (g : Ref) : Prop :=
  (∃ b, (after h).body? g = some (.group b)) ∧
    (returnsIn a h g = true ∨ a = .clear g ∨ ¬ (after (a :: h)).Held g)

private theorem returnsIn_iff_poolOf? (hp : Possible (a :: h)) (r : Ref) :
    returnsIn a h r = true ↔
      ((after h).poolOf? r).isSome ∧ (a = .release r ∨ r ∉ (after (a :: h)).living) := by
  simp only [returnsIn_iff hp, Option.isSome_iff_exists, poolOf?_after hp.1]
  constructor
  · rintro ⟨⟨p, ht⟩, hrel, hlive, hend⟩
    exact ⟨⟨p, ht, hrel, hlive⟩, hend⟩
  · rintro ⟨⟨p, ht, hrel, hlive⟩, hend⟩
    exact ⟨⟨p, ht⟩, hrel, hlive, hend⟩

/-- A group that gives its buffer back is left empty and of its own, and every other error that was
there is touched by the action, and that is all. -/
theorem body?_cons {q : Ref} (hp : Possible (a :: h)) (hq : q < (after h).next) :
    (after (a :: h)).body? q = ((after h).body? q).map fun b =>
      if returnsIn a h q = true then .group ⟨[], none⟩ else a.touch q b := by
  obtain ⟨b, hb⟩ := body?_of_lt hq
  have hret := returnsIn_iff_poolOf? hp q
  have hpool : (after h).poolOf? q = b.pool? := by rw [poolOf?, hb, Option.bind_some]
  rw [hpool] at hret
  rw [after, Action.body?_apply (sound_after hp.1) a hq, ← after, hb, Option.map_some,
    Option.map_some]
  congr 1
  by_cases hrelease : a = .release q
  · -- Released, it is left as it would be if it were dead.
    subst hrelease
    have htouch : (Action.release q).touch q b = b.retired := if_pos rfl
    rw [htouch, Body.retired_retired, ite_self, Body.retired]
    by_cases hpooled : b.pool?.isSome
    · simp [hpooled]
    · simp [hret, hpooled]
  · by_cases hlive : q ∈ (after (a :: h)).living
    · simp [hlive, hret, hrelease]
    · rw [if_neg hlive, Body.retired, Action.pool?_touch hrelease]
      simp [hlive, hret]

private theorem holdings_of_givesUp (hp : Possible (a :: h)) {g : Ref} (hg : GivesUp a h g)
    (hheld : (after (a :: h)).Held g) : (after (a :: h)).holdings g = [] := by
  obtain ⟨⟨b, hb⟩, hup⟩ := hg
  rw [holdings, body?_cons hp (lt_next_of_body? hb), hb, Option.map_some, Option.map_some,
    Option.getD_some]
  split
  · rfl
  · next hret =>
    rcases hup with h | rfl | hgone
    · exact absurd h hret
    · simp [Action.touch, Body.withMembers, Body.holds]
    · exact absurd hheld hgone

/-- An action that only lets go of holds makes nothing, uses no pool and is noticed by nobody. -/
theorem Action.frame_of_settles {s : Store} (ha : a.settles = true) :
    a.made s = [] ∧ (∀ r ∈ a.rootsAfter s, r ∈ s.roots) ∧ (∀ p pool, a.onPool p pool = pool) ∧
      (a.apply s).2 = [] := by
  cases a with
  | clear r => exact ⟨rfl, fun _ hr => hr, fun _ _ => rfl, rfl⟩
  | release r => exact ⟨rfl, fun _ hr => hr, fun _ _ => rfl, rfl⟩
  | letGo r => exact ⟨rfl, fun _ hr => List.mem_of_mem_erase hr, fun _ _ => rfl, rfl⟩
  | _ => exact absurd ha nofun

private theorem heldThrough_of_settles (hp : Possible (a :: h)) (ha : a.settles = true)
    (hheld : (after (a :: h)).Held r) : (after h).HeldThrough (fun g => ¬ GivesUp a h g) r := by
  -- What is held after an action that only lets go of holds was held before, through errors whose
  -- members it does not give up.
  have hs := sound_after hp.1
  obtain ⟨hmade, hroots, -, -⟩ := Action.frame_of_settles (s := after h) ha
  induction hheld with
  | outside hroot =>
    rw [after, Action.roots_apply hs] at hroot
    exact .outside (hroots _ hroot)
  | @inside q r hq _ hholds ih =>
    have hup : ¬ GivesUp a h q := fun hg => by
      rw [holdings_of_givesUp hp hg hq] at hholds
      exact absurd hholds List.not_mem_nil
    obtain ⟨b, hb, hmem⟩ := mem_holdings_iff.mp hholds
    have hlive := mem_living_of_heldThrough (sound_after hp) (roots_lt_after hp) hq
    have hlt : q < (after h).next := by
      have hlt := lt_next_of_body? hb
      rwa [after, Action.next_apply hs, hmade] at hlt
    rw [after, Action.body?_apply_of_living hs a hlt hlive] at hb
    obtain ⟨b₀, hb₀, rfl⟩ := Option.map_eq_some_iff.mp hb
    exact .inside ih hup (mem_holdings_iff.mpr ⟨b₀, hb₀, Action.holds_touch_of_settles ha hmem⟩)

private theorem not_givesUp_of_not_settles (hp : Possible (a :: h))
    (hu' : (after (a :: h)).Untangled) (ha : a.settles = false) {g : Ref}
    (hheld : (after h).Held g) : ¬ GivesUp a h g := by
  have hs := sound_after hp.1
  have hlive : g ∈ (after (a :: h)).living :=
    (Action.mem_living_apply hs a g).mpr (Action.living_subset_act hs ha g
      (mem_living_of_heldThrough hs (roots_lt_after hp.1) hheld))
  rintro ⟨-, hret | rfl | hgone⟩
  · obtain ⟨-, rfl | hdead⟩ := (returnsIn_iff_poolOf? hp g).mp hret
    · exact absurd ha nofun
    · exact hdead hlive
  · exact absurd ha nofun
  · exact hgone ((mem_living_iff_held hp hu').mp hlive)

/-- What was held before an action and is so after it was held through errors whose members the
action does not give up. -/
theorem heldThrough_of_held (hp : Possible (a :: h)) (hu' : (after (a :: h)).Untangled)
    (hheld : (after h).Held r) (hheld' : (after (a :: h)).Held r) :
    (after h).HeldThrough (fun g => ¬ GivesUp a h g) r := by
  cases ha : a.settles with
  | true => exact heldThrough_of_settles hp ha hheld'
  | false => exact hheld.imp fun g hg _ => not_givesUp_of_not_settles hp hu' ha hg

/-- Groups that are held through members that an action gives up alone give their buffers back in
that action. -/
theorem returnsIn_of_givesUp (hp : Possible (a :: h)) (hu : (after h).Untangled)
    (hu' : (after (a :: h)).Untangled) (ht : (takenFrom? h r).isSome)
    (hrel : released h r = false) (hheld : (after h).Held r)
    (honly : ¬ (after h).HeldThrough (fun g => ¬ GivesUp a h g) r) : returnsIn a h r = true :=
  (returnsIn_iff_held hp hu hu' r).mpr
    ⟨ht, hrel, hheld, .inr fun hheld' => honly (heldThrough_of_held hp hu' hheld hheld')⟩

/-! ### The pools -/

/-- Buffers come back in actions that only let go of holds. -/
theorem settles_of_returned (hp : Possible (a :: h)) {p : Nat} (hret : returned a h p ≠ []) :
    a.settles = true := by
  rw [returned_eq_parted hp] at hret
  cases ha : a.settles with
  | true => rfl
  | false => exact absurd (Action.parted_of_not_settles (sound_after hp.1) ha p) hret

end

end Store

/-- A pool that is gone, or has no room, stays as it is when buffers come back. -/
theorem Pool.refill_of_full {p : Pool} (h : p.handles = 0 ∨ p.settings.maxIdle ≤ p.idle) (n : Nat) :
    p.refill n = p := by
  have haccept : p.accept = p := by
    unfold accept put
    rcases h with hclosed | hfull
    · rw [if_neg (by omega)]
    · rw [if_neg (Nat.not_lt.mpr hfull), ite_self]
  induction n with
  | zero => rfl
  | succ n ih => rw [refill, ih, haccept]

namespace Store

/-- What a run in which no group comes to contain itself keeps to, for each group taken from a
pool. -/
structure Custody (h : History) : Prop where
  /-- A group belongs to its pool until it is released or has no holder any more. -/
  belongs : ∀ r p, (after h).poolOf? r = some p ↔
    takenFrom? h r = some p ∧ released h r = false ∧ (after h).Held r
  /-- It gives its buffer back in the action that releases it, or in the one that takes its last
  holder away, and in no other. -/
  moment : ∀ a h₀, a :: h₀ <:+ h → ∀ r, (returnsIn a h₀ r = true ↔
    (takenFrom? h₀ r).isSome ∧ released h₀ r = false ∧ (after h₀).Held r ∧
      (a = .release r ∨ ¬ (after (a :: h₀)).Held r))
  /-- So it gives back one buffer in all, and none as long as it has a holder and is not
  released. -/
  once : ∀ r, returns h r ≤ 1 ∧
    (returns h r = 1 ↔ (takenFrom? h r).isSome ∧ (released h r = true ∨ ¬ (after h).Held r))
  /-- Where the members of groups are given up, groups that were held through those alone give
  their buffers back in the same action. -/
  cascade : ∀ a h₀, a :: h₀ <:+ h → ∀ r, (takenFrom? h₀ r).isSome → released h₀ r = false →
    (after h₀).Held r → ¬ (after h₀).HeldThrough (fun g => ¬ GivesUp a h₀ g) r →
    returnsIn a h₀ r = true
  /-- A pool takes the buffers that come back as long as it is there and has room, and is as it was
  if it is gone or has none. -/
  accepted : ∀ a h₀, a :: h₀ <:+ h → ∀ p, returned a h₀ p ≠ [] → ∀ pool,
    (after h₀).pool? p = some pool →
    (after (a :: h₀)).pool? p = some (pool.refill (returned a h₀ p).length) ∧
      (0 < pool.handles → (pool.refill (returned a h₀ p).length).idle =
        min pool.settings.maxIdle (pool.idle + (returned a h₀ p).length)) ∧
      (pool.handles = 0 ∨ pool.settings.maxIdle ≤ pool.idle →
        pool.refill (returned a h₀ p).length = pool)
  /-- Whether a pool takes them or not, nothing else comes of it: the groups are left empty and of
  their own, all other errors and holds from outside are as the action leaves them, and nobody
  hears of it. -/
  frame : ∀ a h₀, a :: h₀ <:+ h → ∀ r, returnsIn a h₀ r = true →
    (after (a :: h₀)).next = (after h₀).next ∧
      (∀ q < (after h₀).next, (after (a :: h₀)).body? q = ((after h₀).body? q).map fun b =>
        if returnsIn a h₀ q = true then .group ⟨[], none⟩ else a.touch q b) ∧
      (after (a :: h₀)).roots = a.rootsAfter (after h₀) ∧ (a.apply (after h₀)).2 = []

/-- In every world in which groups do not hold one another in a circle, each group gives its buffer
back once. -/
theorem custody_of_possible {h : History} (hp : Possible h)
    (hu : ∀ h₀, h₀ <:+ h → (after h₀).Untangled) : Custody h where
  belongs := poolOf?_iff_held hp (hu h (List.suffix_refl h))
  moment a h₀ hs := by
    have hs₀ : h₀ <:+ h := (List.suffix_cons a h₀).trans hs
    exact returnsIn_iff_held (possible_of_suffix hp hs) (hu h₀ hs₀) (hu _ hs)
  once r := by
    rw [returns_eq hp, ← mem_living_iff_held hp (hu h (List.suffix_refl h))]
    split
    · next hback => exact ⟨Nat.le_refl 1, fun _ => hback, fun _ => rfl⟩
    · next hkept => exact ⟨Nat.zero_le 1, nofun, fun hback => absurd hback hkept⟩
  cascade a h₀ hs r ht hrel hheld honly := by
    have hs₀ : h₀ <:+ h := (List.suffix_cons a h₀).trans hs
    exact returnsIn_of_givesUp (possible_of_suffix hp hs) (hu h₀ hs₀) (hu _ hs) ht hrel hheld honly
  accepted a h₀ hs p hret pool hpool := by
    have hp₀ := possible_of_suffix hp hs
    have honPool := (Action.frame_of_settles (s := after h₀) (settles_of_returned hp₀ hret)).2.2.1
    have hsound := sound_after hp₀.1
    refine ⟨?_, fun hopen => Pool.idle_refill (hsound.clean p pool hpool) hopen _,
      fun hfull => Pool.refill_of_full hfull _⟩
    rw [after, Action.pool?_apply hsound a hpool, honPool, returned_eq_parted hp₀]
  frame a h₀ hs r hret := by
    have hp₀ := possible_of_suffix hp hs
    have hsound := sound_after hp₀.1
    obtain ⟨p, -, hmem⟩ := (Option.any_eq_true _ _).mp hret
    have hne : returned a h₀ p ≠ [] := List.ne_nil_of_mem (List.elem_iff.mp hmem)
    obtain ⟨hmade, -, -, hunheard⟩ :=
      Action.frame_of_settles (s := after h₀) (settles_of_returned hp₀ hne)
    refine ⟨?_, fun q => body?_cons hp₀, Action.roots_apply hsound a, hunheard⟩
    rw [after, Action.next_apply hsound, hmade]
    rfl

/-- A group is moved into a wrapper that a joined error and another group share; the joined error is
dropped, then the other group is cleared, and released into a pool that has no room left. A third
group holds a fourth, and is dropped when the pool is gone. -/
def entrusted : History :=
  [.letGo 4, .dropPool 0, .letGo 5, .append 4 (some 5), .takeGroup 0, .takeGroup 0, .release 3,
    .clear 3, .letGo 2, .append 3 (some 1), .takeGroup 0, .letGo 1, .join [1], .letGo 0,
    .wrap 0 "moved" [] 0, .takeGroup 0, .addPool ⟨4, 1⟩]

private theorem untangled_entrusted : ∀ h₀, h₀ <:+ entrusted → (after h₀).Untangled := by
  -- Of the groups only the third holds an error that is younger than itself.
  let rank : Ref → Nat := fun r => if r = 5 then 0 else r
  have hrank : ∀ h₀ ∈ entrusted.tails, ∀ r < (after h₀).next, ∀ q ∈ (after h₀).holdings r,
      rank q < rank r := by
    decide
  exact fun h₀ hs => untangled_of_rank rank (hrank h₀ (List.mem_tails _ _ |>.mpr hs))

/-- Groups of a pool that are held by joined errors, wrappers and other groups. -/
theorem custody_entrusted :
    Possible entrusted ∧ (∀ h₀, h₀ <:+ entrusted → (after h₀).Untangled) ∧ Custody entrusted :=
  ⟨by decide, untangled_entrusted, custody_of_possible (by decide) untangled_entrusted⟩

example : (List.range 6).map (returns entrusted) = [1, 0, 0, 1, 1, 1] ∧
    ((after (entrusted.drop 4)).pool? 0).map Pool.idle = some 0 ∧
    ((after (entrusted.drop 6)).pool? 0).map Pool.idle = some 1 := by
  decide

end Store

end Mishap
