import Mishap.Proofs.Store.Run

/-!
# Pools over a run

What a run did to pools, read off its actions: which groups were taken from which pool, which of
them are outstanding, and when each gave its buffer back. The groups that a store has down as
belonging to a pool are those that are outstanding (`poolOf?_after`), so the account of one action
becomes an account of the whole run (`pooling_of_possible`).
-/

namespace Mishap.Store

/-- The action releases a group. -/
def Action.releases (a : Action) (r : Ref) : Bool :=
  match a with
  | release q => q = r
  | _ => false

private theorem Action.releases_iff (a : Action) (r : Ref) :
    a.releases r = true ↔ a = release r := by
  unfold releases
  split
  · next q => rw [decide_eq_true_eq, release.injEq]
  · next h => exact ⟨nofun, fun heq => absurd heq (h r)⟩

/-- The settings that a pool was made with. -/
def configured? : History → Nat → Option PoolSettings
  | [], _ => none
  | .addPool settings :: h, p =>
    if p = (after h).pools.length then some settings else configured? h p
  | _ :: h, p => configured? h p

/-- The pool that a group was taken from. -/
def takenFrom? : History → Ref → Option Nat
  | [], _ => none
  | .takeGroup p :: h, r => if r = (after h).next then some p else takenFrom? h r
  | _ :: h, r => takenFrom? h r

/-- A group has been released. -/
def released (h : History) (r : Ref) : Bool := h.any (·.releases r)

/-- The groups that were taken from a pool, and have neither been released nor died. -/
def outstanding (h : History) (p : Nat) : List Ref :=
  (List.range (after h).next).filter fun r =>
    takenFrom? h r = some p && !released h r && (after h).living.elem r

/-- The most groups of a pool that were outstanding at one time so far. -/
def peak : History → Nat → Nat
  | [], _ => 0
  | a :: h, p => max (peak h p) (outstanding (a :: h) p).length

/-- The groups of a pool that give their buffers back in an action: they are outstanding no
more. -/
def returned (a : Action) (h : History) (p : Nat) : List Ref :=
  (outstanding h p).filter fun r => !(outstanding (a :: h) p).elem r

/-- A group gives its buffer back in an action. -/
def returnsIn (a : Action) (h : History) (r : Ref) : Bool :=
  (takenFrom? h r).any fun p => (returned a h p).elem r

/-- How often a group gave a buffer back. -/
def returns : History → Ref → Nat
  | [], _ => 0
  | a :: h, r => returns h r + if returnsIn a h r then 1 else 0

/-! ### What the store has down -/

private theorem takenFrom?_cons_of_lt {a : Action} {h : History} {r : Ref}
    (hlt : r < (after h).next) :
    takenFrom? (a :: h) r = takenFrom? h r := by
  cases a with
  | takeGroup p => exact if_neg (Nat.ne_of_lt hlt)
  | _ => rfl

private theorem lt_next_of_takenFrom? {h : History} (hp : Possible h) {r : Ref} {p : Nat}
    (ht : takenFrom? h r = some p) : r < (after h).next := by
  induction h with
  | nil => exact absurd ht nofun
  | cons a h ih =>
    by_cases hlt : r < (after h).next
    · exact Nat.lt_of_lt_of_le hlt (next_le_cons hp)
    · cases a with
      | takeGroup p' =>
        rw [takenFrom?] at ht
        split at ht
        · next heq =>
          rw [after, Action.next_apply (sound_after hp.1), heq]
          exact Nat.lt_succ_self _
        · exact absurd (ih hp.1 ht) hlt
      | _ => exact absurd (ih hp.1 ht) hlt

private theorem lt_next_of_released {h : History} (hp : Possible h) {r : Ref}
    (hr : released h r = true) : r < (after h).next := by
  obtain ⟨a, ha, hrel⟩ := List.any_eq_true.mp hr
  have heq := (a.releases_iff r).mp hrel
  subst heq
  exact lt_next_of_given hp ha (List.mem_singleton.mpr rfl)

private theorem released_cons_eq_false {a : Action} {h : History} {r : Ref} :
    released (a :: h) r = false ↔ a ≠ .release r ∧ released h r = false := by
  rw [released, List.any_cons, Bool.or_eq_false_iff, ← Bool.not_eq_true, a.releases_iff]
  rfl

private theorem takenFrom?_cons_new {a : Action} {h : History} (hp : Possible h) {i p : Nat} :
    takenFrom? (a :: h) ((after h).next + i) = some p ↔ a = .takeGroup p ∧ i = 0 := by
  have hold : takenFrom? h ((after h).next + i) = some p → False := fun ht =>
    absurd (lt_next_of_takenFrom? hp ht) (Nat.not_lt.mpr (Nat.le_add_right _ _))
  cases a with
  | takeGroup p' =>
    rw [takenFrom?, Action.takeGroup.injEq]
    split
    · next heq =>
      rw [Option.some.injEq]
      constructor
      · intro hpool
        exact ⟨hpool, Nat.add_eq_left.mp heq⟩
      · intro h
        exact h.1
    · next hne =>
      constructor
      · intro ht
        exact (hold ht).elim
      · intro h
        exact absurd (Nat.add_eq_left.mpr h.2) hne
  | _ => exact ⟨fun ht => (hold ht).elim, fun h => absurd h.1 nofun⟩

private theorem poolOf?_of_just_taken {a : Action} {h : History} (hp : Possible (a :: h))
    {i p : Nat} (ht : takenFrom? (a :: h) ((after h).next + i) = some p) :
    (after (a :: h)).poolOf? ((after h).next + i) = some p := by
  obtain ⟨rfl, rfl⟩ := (takenFrom?_cons_new hp.1).mp ht
  rw [poolOf?, after, Action.body?_apply_new (sound_after hp.1)]
  rfl

/-- A group belongs to a pool exactly if it was taken from it, was never released, and lives. -/
theorem poolOf?_after {h : History} (hp : Possible h) (r : Ref) (p : Nat) :
    (after h).poolOf? r = some p ↔
      takenFrom? h r = some p ∧ released h r = false ∧ r ∈ (after h).living := by
  induction h with
  | nil => exact ⟨fun h => absurd h.symm (Option.some_ne_none p),
      fun h => absurd h.1.symm (Option.some_ne_none p)⟩
  | cons a h ih =>
    have hs := sound_after hp.1
    by_cases hlt : r < (after h).next
    · rw [after, Action.poolOf?_apply_eq_some hs a hlt, ih hp.1, takenFrom?_cons_of_lt hlt,
        released_cons_eq_false]
      constructor
      · rintro ⟨⟨ht, hrel, -⟩, hlive, hne⟩
        exact ⟨ht, ⟨hne, hrel⟩, hlive⟩
      · rintro ⟨ht, ⟨hne, hrel⟩, hlive⟩
        exact ⟨⟨ht, hrel, mem_living_of_cons hp hlt hlive⟩, hlive, hne⟩
    · obtain ⟨i, rfl⟩ := Nat.exists_eq_add_of_le (Nat.le_of_not_lt hlt)
      constructor
      · intro hpool
        obtain ⟨rfl, rfl⟩ := Action.poolOf?_apply_new hs hpool
        refine ⟨if_pos rfl, ?_, (sound_after hp).settled _ p hpool⟩
        refine released_cons_eq_false.mpr ⟨by simp, ?_⟩
        rw [← Bool.not_eq_true]
        exact fun hrel => hlt (lt_next_of_released hp.1 hrel)
      · exact fun ht => poolOf?_of_just_taken hp ht.1

/-- A living group is pooled exactly if it was taken from a pool and was never released. -/
theorem isPooled_after {h : History} (hp : Possible h) {r : Ref} (hlive : r ∈ (after h).living) :
    (after h).isPooled r = true ↔ (takenFrom? h r).isSome ∧ released h r = false := by
  rw [isPooled_eq, Option.isSome_iff_exists, Option.isSome_iff_exists]
  constructor
  · rintro ⟨p, hpool⟩
    obtain ⟨ht, hrel, -⟩ := (poolOf?_after hp r p).mp hpool
    exact ⟨⟨p, ht⟩, hrel⟩
  · rintro ⟨⟨p, ht⟩, hrel⟩
    exact ⟨p, (poolOf?_after hp r p).mpr ⟨ht, hrel, hlive⟩⟩

private theorem outstanding_eq_pooled {h : History} (hp : Possible h) (p : Nat) :
    outstanding h p = (after h).pooled p := by
  apply List.filter_congr
  intro r _
  have hiff := poolOf?_after hp r p
  rw [Bool.eq_iff_iff, Bool.and_eq_true, Bool.and_eq_true, Bool.not_eq_true', List.elem_iff,
    decide_eq_true_eq, decide_eq_true_eq, hiff]
  constructor
  · rintro ⟨⟨ht, hrel⟩, hlive⟩
    exact ⟨ht, hrel, hlive⟩
  · rintro ⟨ht, hrel, hlive⟩
    exact ⟨⟨ht, hrel⟩, hlive⟩

private theorem mem_outstanding {h : History} (hp : Possible h) {r : Ref} {p : Nat} :
    r ∈ outstanding h p ↔
      takenFrom? h r = some p ∧ released h r = false ∧ r ∈ (after h).living := by
  rw [outstanding_eq_pooled hp, mem_pooled, poolOf?_after hp]

/-- By the run and by the store the same buffers come back to a pool. -/
theorem returned_eq_parted {a : Action} {h : History} (hp : Possible (a :: h)) (p : Nat) :
    returned a h p = Action.parted (after h) a p := by
  rw [returned, outstanding_eq_pooled hp, outstanding_eq_pooled hp.1]
  rfl

/-! ### The pools -/

/-- A pool keeps the settings that it was made with. -/
theorem settings_after {h : History} (hp : Possible h) (p : Nat) :
    ((after h).pool? p).map (·.settings) = configured? h p := by
  induction h with
  | nil => rfl
  | cons a h ih =>
    have hs := sound_after hp.1
    cases hold : (after h).pool? p with
    | some pool =>
      have hkept : configured? (a :: h) p = configured? h p := by
        cases a with
        | addPool settings =>
          exact if_neg (Nat.ne_of_lt (List.getElem?_eq_some_iff.mp hold).1)
        | _ => rfl
      rw [hkept, ← ih hp.1, hold, after, Action.pool?_apply hs a hold, Option.map_some,
        Option.map_some, (Pool.refill_settings_handles _ _).1, Action.settings_onPool]
    | none =>
      have hnone : configured? h p = none := by rw [← ih hp.1, hold]; rfl
      rw [after, Action.pool?_apply_new hs a hold]
      cases a with
      | addPool settings =>
        have hle : (after h).pools.length ≤ p := List.getElem?_eq_none_iff.mp hold
        rw [configured?, Action.newPools, hnone, List.getElem?_singleton]
        by_cases heq : p = (after h).pools.length
        · rw [if_pos heq, if_pos (by omega)]
          rfl
        · rw [if_neg heq, if_neg (by omega)]
          rfl
      | _ => exact hnone.symm

/-- The buffers that wait and the groups that are outstanding are no more than the groups that
were outstanding at one time. -/
theorem idle_le_peak {h : History} (hp : Possible h) {p : Nat} {pool : Pool}
    (hpool : (after h).pool? p = some pool) :
    pool.idle + (outstanding h p).length ≤ peak h p := by
  induction h generalizing pool with
  | nil => exact absurd hpool nofun
  | cons a h ih =>
    have hs := sound_after hp.1
    rw [peak]
    cases hold : (after h).pool? p with
    | none =>
      have hidle : pool.idle = 0 := by
        rw [after, Action.pool?_apply_new hs a hold] at hpool
        exact Action.idle_of_newPools (List.mem_of_getElem? hpool)
      omega
    | some old =>
      have hle := ih hp.1 hold
      have hlen := Action.length_pooled_apply hs a p
      cases hpool.symm.trans (Action.pool?_apply hs a hold)
      have hrefill := Pool.idle_refill_le (a.onPool p old) (Action.parted (after h) a p).length
      have hused := Action.idle_onPool_le a p old
      rw [outstanding_eq_pooled hp.1] at hle
      rw [outstanding_eq_pooled hp, after]
      rcases Action.taken_eq a p with ⟨rfl, htaken⟩ | ⟨-, htaken⟩
      · have hparted := Action.parted_of_not_settles (a := .takeGroup p) hs rfl p
        rw [hparted, List.length_nil] at hlen hrefill ⊢
        omega
      · omega

/-! ### One return for each group -/

/-- A group gives its buffer back when it is first released, or when it dies unreleased. -/
theorem returnsIn_iff {a : Action} {h : History} (hp : Possible (a :: h)) (r : Ref) :
    returnsIn a h r = true ↔
      (takenFrom? h r).isSome ∧ released h r = false ∧ r ∈ (after h).living ∧
        (a = .release r ∨ r ∉ (after (a :: h)).living) := by
  unfold returnsIn
  cases ht : takenFrom? h r with
  | none => exact ⟨nofun, fun h => absurd h.1 nofun⟩
  | some p =>
    have htaken := (takenFrom?_cons_of_lt (a := a) (lt_next_of_takenFrom? hp.1 ht)).trans ht
    rw [Option.any_some, List.elem_iff, returned, List.mem_filter, Bool.not_eq_true',
      ← Bool.not_eq_true, List.elem_iff, mem_outstanding hp.1, mem_outstanding hp, ht, htaken,
      released_cons_eq_false]
    simp only [true_and, Option.isSome_some]
    constructor
    · rintro ⟨⟨hrel, hlive⟩, hout⟩
      refine ⟨hrel, hlive, Classical.byContradiction fun hkept => hout ?_⟩
      have hboth := not_or.mp hkept
      exact ⟨⟨hboth.1, hrel⟩, Classical.not_not.mp hboth.2⟩
    · rintro ⟨hrel, hlive, hend⟩
      exact ⟨⟨hrel, hlive⟩, fun hkept => hend.elim hkept.1.1 fun hdead => hdead hkept.2⟩

/-- A group that was taken from a pool gives one buffer back in all, and none before it is released
or dies. -/
theorem returns_eq {h : History} (hp : Possible h) (r : Ref) :
    returns h r =
      if (takenFrom? h r).isSome ∧ (released h r = true ∨ r ∉ (after h).living) then 1 else 0 := by
  induction h with
  | nil => rfl
  | cons a h ih =>
    have hiff := returnsIn_iff hp r
    have hrel : released (a :: h) r = true ↔ a = .release r ∨ released h r = true := by
      rw [released, List.any_cons, Bool.or_eq_true, a.releases_iff]
      rfl
    rw [returns, ih hp.1]
    by_cases hlt : r < (after h).next
    · have hlive := mem_living_of_cons hp hlt
      have htaken := takenFrom?_cons_of_lt (a := a) hlt
      -- Released before, dead before, released now, died now: each decides both sides.
      by_cases hgone : released h r = true ∨ r ∉ (after h).living
      · grind
      · grind
    · have hnone : takenFrom? h r = none := Option.eq_none_iff_forall_ne_some.mpr fun p ht =>
        hlt (lt_next_of_takenFrom? hp.1 ht)
      have hin : returnsIn a h r = false := by rw [returnsIn, hnone]; rfl
      have hout : (takenFrom? (a :: h) r).isSome →
          released (a :: h) r = false ∧ r ∈ (after (a :: h)).living := by
        intro hsome
        obtain ⟨p, ht⟩ := Option.isSome_iff_exists.mp hsome
        obtain ⟨i, rfl⟩ := Nat.exists_eq_add_of_le (Nat.le_of_not_lt hlt)
        exact ((poolOf?_after hp _ p).mp (poolOf?_of_just_taken hp ht)).2
      grind

/-! ### The whole account -/

/-- A group from a pool is an empty group of the pool, and nobody hears of it. -/
theorem takeGroup_after {h : History} (hp : Possible h) (p : Nat) :
    (after (.takeGroup p :: h)).body? (after h).next = some (.group ⟨[], some p⟩) ∧
      ((Action.takeGroup p).apply (after h)).2 = [] := by
  have hs := sound_after hp
  constructor
  · rw [after, ← Nat.add_zero (after h).next, Action.body?_apply_new hs]
    rfl
  · change ((after h).takeGroup p).2.2 = []
    rw [takeGroup_eq hs.clean]

/-- A group that is taken takes a buffer that waits, if there is one. -/
theorem idle_takeGroup {h : History} {p : Nat} (hp : Possible (.takeGroup p :: h))
    {pool pool' : Pool} (hpool : (after h).pool? p = some pool)
    (hpool' : (after (.takeGroup p :: h)).pool? p = some pool') : pool'.idle = pool.idle - 1 := by
  have hs := sound_after hp.1
  have hlend : (Action.takeGroup p).onPool p pool = pool.lend := if_pos rfl
  cases hpool'.symm.trans (Action.pool?_apply hs (.takeGroup p) hpool)
  rw [Action.parted_of_not_settles hs rfl, hlend]
  exact List.length_tail

/-- Any other action gives an open pool one buffer for each group that gives its own back, and the
pool keeps as many as it has room for. -/
theorem idle_of_returned {a : Action} {h : History} (hp : Possible (a :: h)) {p : Nat}
    (hne : a ≠ .takeGroup p) {pool pool' : Pool} (hpool : (after h).pool? p = some pool)
    (hpool' : (after (a :: h)).pool? p = some pool') (hopen : pool'.handles ≠ 0) :
    pool'.idle = min pool'.settings.maxIdle (pool.idle + (returned a h p).length) := by
  have hs := sound_after hp.1
  have hclean := Action.clean_onPool a p (hs.clean p pool hpool)
  rw [returned_eq_parted hp]
  cases hpool'.symm.trans (Action.pool?_apply hs a hpool)
  obtain ⟨hsettings, hhandles⟩ :=
    Pool.refill_settings_handles (Action.parted (after h) a p).length (a.onPool p pool)
  rw [hhandles] at hopen
  rw [Pool.idle_refill hclean (Nat.pos_of_ne_zero hopen), hsettings,
    Action.idle_onPool_of_open hne hopen]

/-- Releasing a group again changes nothing at all. -/
theorem release_again {h : History} (hp : Possible h) {r : Ref} (hr : released h r = true) :
    after (.release r :: h) = after h := by
  have hs := sound_after hp
  have hnone : (after h).poolOf? r = none := by
    apply Option.eq_none_iff_forall_ne_some.mpr
    intro p hpool
    exact absurd (hr.symm.trans ((poolOf?_after hp r p).mp hpool).2.1) nofun
  change ((after h).retire r).settle = after h
  rw [retire_of_not_pooled hnone, settle_eq_self hs.settled]

/-- A drop of a released group gives no buffer of its own back. -/
theorem drop_released {h : History} {r : Ref} (hp : Possible (.letGo r :: h))
    (hr : released h r = true) {p : Nat}
    (hothers : ∀ q ∈ outstanding h p, q ≠ r → q ∈ (after (.letGo r :: h)).living) :
    (after (.letGo r :: h)).pool? p = (after h).pool? p := by
  have hs := sound_after hp.1
  cases hpool : (after h).pool? p with
  | none => exact Action.pool?_apply_new hs (.letGo r) hpool
  | some pool =>
    have hnone : returned (.letGo r) h p = [] := by
      apply List.filter_eq_nil_iff.mpr
      intro q hq
      obtain ⟨ht, hrel, -⟩ := (mem_outstanding hp.1).mp hq
      have hne : q ≠ r := by
        rintro rfl
        exact absurd (hr.symm.trans hrel) nofun
      have hkept : q ∈ outstanding (.letGo r :: h) p := by
        refine (mem_outstanding hp).mpr ⟨?_, ?_, hothers q hq hne⟩
        · rw [takenFrom?_cons_of_lt (lt_next_of_takenFrom? hp.1 ht), ht]
        · exact released_cons_eq_false.mpr ⟨nofun, hrel⟩
      rw [Bool.not_eq_true, Bool.not_eq_false']
      exact List.elem_iff.mpr hkept
    rw [after, Action.pool?_apply hs _ hpool, ← returned_eq_parted hp, hnone]
    rfl

/-- What a run keeps to, for each of its pools and each group taken from one. -/
structure Pooling (h : History) : Prop where
  settings : ∀ p, ((after h).pool? p).map (·.settings) = configured? h p
  /-- The buffers that wait are empty, and no more than allowed; with the groups that are
  outstanding they are no more than were outstanding at one time. -/
  waiting : ∀ p pool, (after h).pool? p = some pool →
    (∀ buffer ∈ pool.free, buffer = []) ∧ pool.idle ≤ pool.settings.maxIdle ∧
      pool.idle + (outstanding h p).length ≤ peak h p
  /-- A group from an open pool is empty and of the pool. -/
  taken : ∀ p, (after h).isOpen p = true →
    Possible (.takeGroup p :: h) ∧
      (after (.takeGroup p :: h)).body? (after h).next = some (.group ⟨[], some p⟩) ∧
      ((Action.takeGroup p).apply (after h)).2 = []
  /-- A group gives its buffer back when it is first released, or when it dies unreleased. -/
  returnsIn_iff : ∀ a, Possible (a :: h) → ∀ r,
    (returnsIn a h r = true ↔
      (takenFrom? h r).isSome ∧ released h r = false ∧ r ∈ (after h).living ∧
        (a = .release r ∨ r ∉ (after (a :: h)).living))
  /-- It has given back one buffer once it was released or died, and none before. -/
  returns_eq : ∀ r, returns h r =
    if (takenFrom? h r).isSome ∧ (released h r = true ∨ r ∉ (after h).living) then 1 else 0
  /-- The number of buffers that wait changes by what is taken and given back alone. -/
  account : ∀ a, Possible (a :: h) → ∀ p pool pool', (after h).pool? p = some pool →
    (after (a :: h)).pool? p = some pool' →
    (a = .takeGroup p → pool'.idle = pool.idle - 1) ∧
      (a ≠ .takeGroup p → pool'.handles ≠ 0 →
        pool'.idle = min pool'.settings.maxIdle (pool.idle + (returned a h p).length)) ∧
      (pool'.handles = 0 → pool'.idle = 0)
  /-- Releasing a group again changes nothing at all. -/
  again : ∀ r, released h r = true → after (.release r :: h) = after h
  /-- Dropping a released group changes a pool only by buffers of other groups that die of it. -/
  drop : ∀ r, released h r = true → Possible (.letGo r :: h) →
    ∀ p, (∀ q ∈ outstanding h p, q ≠ r → q ∈ (after (.letGo r :: h)).living) →
      (after (.letGo r :: h)).pool? p = (after h).pool? p

/-- In every world idle buffers are empty, are no more than allowed, and each group gives back at
most one. -/
theorem pooling_of_possible {h : History} (hp : Possible h) : Pooling h where
  settings := settings_after hp
  waiting p pool hpool :=
    have hclean := (sound_after hp).clean p pool hpool
    ⟨hclean.empty, hclean.bounded, idle_le_peak hp hpool⟩
  taken p hopen :=
    ⟨⟨hp, nofun, fun _ hq => List.mem_singleton.mp hq ▸ hopen, nofun⟩, takeGroup_after hp p⟩
  returnsIn_iff _ hp r := Store.returnsIn_iff hp r
  returns_eq := Store.returns_eq hp
  account a hp p pool pool' hpool hpool' := by
    refine ⟨?_, fun hne => idle_of_returned hp hne hpool hpool', fun hclosed => ?_⟩
    · rintro rfl
      exact idle_takeGroup hp hpool hpool'
    · rw [Pool.idle, ((sound_after hp).clean p pool' hpool').closed hclosed]
      rfl
  again _ hr := release_again hp hr
  drop _ hr hp _ hothers := drop_released hp hr hothers

/-- A group is given to a group that was released; when that group is dropped, so is the other. -/
def groupInGroup : History :=
  [.letGo 1, .append 0 (some 1), .takeGroup 0, .release 0, .takeGroup 0, .addPool default]

/-- A group of a pool in another one of the same pool. -/
theorem pooling_groupInGroup : Possible groupInGroup ∧ Pooling groupInGroup :=
  ⟨by decide, pooling_of_possible (by decide)⟩

/-- A drop of a released group can bring a buffer back: that of a group that dies of it. -/
theorem idle_changes_by_drop_of_released :
    ¬ ∀ (h : History) (r : Ref) (p : Nat), Possible (.letGo r :: h) → released h r = true →
      ((after (.letGo r :: h)).pool? p).map Pool.idle = ((after h).pool? p).map Pool.idle := by
  intro hsame
  have hdrop := hsame groupInGroup 0 0 (by decide) (by decide)
  exact absurd hdrop (by decide)

end Mishap.Store
