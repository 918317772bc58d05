import Mishap.Proofs.Store.Sound

/-!
# What an action does

Every action is the change that it names, after which the dead groups are retired
(`apply_eq_settle`). In a sound store that is said of each place, of the living, and of each pool
by `body?_apply`, `mem_living_of_apply` and `pool?_apply`.
-/

namespace Mishap.Store

namespace Action

variable {s : Store} {a : Action}

/-! ### Pools -/

private theorem poolOf?_act (hclean : s.PoolsClean) {q : Ref} (h : a ≠ release q)
    (hq : q < s.next) :
    (a.act s).poolOf? q = s.poolOf? q := by
  rw [poolOf?, body?_act hclean a hq, poolOf?]
  cases s.body? q with
  | none => rfl
  | some b => exact pool?_touch h b

/-- The only new group of a pool is the one taken from it. -/
theorem poolOf?_act_new (hclean : s.PoolsClean) {i p : Nat}
    (h : (a.act s).poolOf? (s.next + i) = some p) : a = takeGroup p ∧ i = 0 := by
  rw [poolOf?, body?_act_new hclean] at h
  obtain ⟨b, hb, hp⟩ := Option.bind_eq_some_iff.mp h
  rw [Body.pool?_eq] at hp
  obtain ⟨g, hg, hp⟩ := Option.bind_eq_some_iff.mp hp
  obtain ⟨rfl, ⟨-, rfl⟩ | ⟨p', rfl, rfl⟩⟩ := group?_made hb hg
  · exact absurd hp.symm (Option.some_ne_none p)
  · exact ⟨congrArg takeGroup (Option.some.inj hp), rfl⟩

private theorem poolOf?_takeGroup (hclean : s.PoolsClean) (p : Nat) :
    ((takeGroup p).act s).poolOf? s.next = some p := by
  rw [poolOf?, ← Nat.add_zero s.next, body?_act_new hclean]
  rfl

/-- An action takes one group from the pool that it asks, and none from any other. -/
theorem taken_eq (a : Action) (p : Nat) :
    (a = takeGroup p ∧ a.taken p = 1) ∨ (a ≠ takeGroup p ∧ a.taken p = 0) := by
  unfold taken
  split
  · next p' =>
    by_cases heq : p' = p
    · exact .inl ⟨congrArg takeGroup heq, if_pos heq⟩
    · exact .inr ⟨fun h => heq (takeGroup.inj h), if_neg heq⟩
  · next h => exact .inr ⟨h p, rfl⟩

private theorem length_new_pooled {t : Store} {p : Nat}
    (hnew : ∀ i, t.poolOf? (s.next + i) = some p → a = takeGroup p ∧ i = 0)
    (htake : a = takeGroup p → t.poolOf? s.next = some p) :
    (((List.range (a.made s).length).map (s.next + ·)).filter fun r =>
      t.poolOf? r = some p).length = a.taken p := by
  rcases taken_eq a p with ⟨rfl, htaken⟩ | ⟨hne, htaken⟩
  · have hrange : (List.range ((takeGroup p).made s).length).map (s.next + ·) = [s.next + 0] := rfl
    rw [htaken, hrange, Nat.add_zero, List.filter_cons, htake rfl, if_pos (decide_eq_true rfl)]
    rfl
  · rw [htaken, List.length_eq_zero_iff, List.filter_eq_nil_iff]
    intro q hq hp
    obtain ⟨i, -, rfl⟩ := List.mem_map.mp hq
    exact hne (hnew i (of_decide_eq_true hp)).1

private theorem pooled_act (hclean : s.PoolsClean) (h : ∀ r, a ≠ release r) (p : Nat) :
    ((a.act s).pooled p).length = (s.pooled p).length + a.taken p := by
  have hold : (List.range s.next).filter (fun r => (a.act s).poolOf? r = some p) = s.pooled p :=
    List.filter_congr fun q hq => by rw [poolOf?_act hclean (h q) (List.mem_range.mp hq)]
  have hnew := length_new_pooled (a := a) (fun i => poolOf?_act_new hclean)
    (fun heq => heq ▸ poolOf?_takeGroup hclean p)
  rw [pooled, next_act hclean, List.range_add, List.filter_append, List.length_append, hold, hnew]

/-- Before the dead are retired, each pool has taken back one buffer for each group that parted
from it. -/
theorem account_act (hclean : s.PoolsClean) (a : Action) {p : Nat} {pool : Pool}
    (hp : s.pool? p = some pool) :
    ∃ n, (s.pooled p).length + a.taken p = ((a.act s).pooled p).length + n ∧
      (a.act s).pool? p = some ((a.onPool p pool).refill n) := by
  by_cases hrelease : ∃ r, a = release r
  · obtain ⟨r, rfl⟩ := hrelease
    obtain ⟨n, hn, hpool⟩ := returned_retire r s p
    rw [hp] at hpool
    exact ⟨n, hn, hpool⟩
  · have hne : ∀ r, a ≠ release r := fun r heq => hrelease ⟨r, heq⟩
    rw [pooled_act hclean hne, pool?_act hclean a hne hp]
    exact ⟨0, rfl, rfl⟩

/-! ### The whole action -/

private theorem next_mem_living_takeGroup (hs : s.Sound) (p : Nat) :
    s.next ∈ ((takeGroup p).act s).living := by
  refine mem_living_of_held (lt_next_of_poolOf? (poolOf?_takeGroup hs.clean p)) (.inl ?_)
  rw [roots_act hs.clean]
  exact List.mem_cons_self

private theorem settled_act (hs : s.Sound) (h : a.settles = false) :
    ∀ r p, (a.act s).poolOf? r = some p → r ∈ (a.act s).living := by
  intro r p hp
  have hrelease : a ≠ release r := fun heq => absurd (heq ▸ h) nofun
  by_cases hlt : r < s.next
  · rw [poolOf?_act hs.clean hrelease hlt] at hp
    exact living_subset_act hs h r (hs.settled r p hp)
  · obtain ⟨i, rfl⟩ := Nat.exists_eq_add_of_le (Nat.le_of_not_lt hlt)
    obtain ⟨rfl, rfl⟩ := poolOf?_act_new hs.clean hp
    exact next_mem_living_takeGroup hs p

private theorem apply_eq_act (h : a.settles = false) : (a.apply s).1 = a.act s := by
  cases a with
  | clear r => exact absurd h nofun
  | release r => exact absurd h nofun
  | letGo r => exact absurd h nofun
  | append r member? => cases member? <;> rfl
  | _ => rfl

/-- An action is what it names, and then the dead groups are retired. -/
theorem apply_eq_settle (hs : s.Sound) (a : Action) : (a.apply s).1 = (a.act s).settle := by
  cases h : a.settles with
  | false => rw [apply_eq_act h, settle_eq_self (settled_act hs h)]
  | true =>
    cases a with
    | clear r =>
      change s.clear r = _
      rw [Store.clear, act]
      cases s.group? r with
      | none => exact (settle_eq_self hs.settled).symm
      | some g => rfl
    | release r => rfl
    | letGo r => rfl
    | _ => exact absurd h Bool.false_ne_true

/-- A step makes places for what its action makes. -/
theorem next_apply (hs : s.Sound) (a : Action) :
    (a.apply s).1.next = s.next + (a.made s).length := by
  rw [apply_eq_settle hs, next_settle, next_act hs.clean]

/-- A step leaves the holds that its action leaves. -/
theorem roots_apply (hs : s.Sound) (a : Action) : (a.apply s).1.roots = a.rootsAfter s := by
  rw [apply_eq_settle hs, roots_settle, roots_act hs.clean]

/-- After a step what lives is what lives after its action. -/
theorem mem_living_apply (hs : s.Sound) (a : Action) (r : Ref) :
    r ∈ (a.apply s).1.living ↔ r ∈ (a.act s).living := by
  rw [apply_eq_settle hs]
  exact mem_living_settle (a.act s) r

/-- What is dead stays dead. -/
theorem mem_living_of_apply (hs : s.Sound) (ha : s.Allowed a) {r : Ref} (hlt : r < s.next)
    (h : r ∈ (a.apply s).1.living) : r ∈ s.living :=
  mem_living_of_act hs ha hlt ((mem_living_apply hs a r).mp h)

/-- An old place is touched, and retired if nothing holds it any more. -/
theorem body?_apply (hs : s.Sound) (a : Action) {q : Ref} (hq : q < s.next) :
    (a.apply s).1.body? q = (s.body? q).map fun b =>
      if q ∈ (a.apply s).1.living then a.touch q b else (a.touch q b).retired := by
  have hiff := mem_living_apply hs a q
  rw [apply_eq_settle hs, body?_settle, body?_act hs.clean a hq, Option.map_map]
  congr 1
  funext b
  rw [Function.comp_apply, ← apply_eq_settle hs]
  simp only [hiff]

/-- The new places hold what the action makes. -/
theorem body?_apply_new (hs : s.Sound) (a : Action) (i : Nat) :
    (a.apply s).1.body? (s.next + i) = (a.made s)[i]? := by
  rw [apply_eq_settle hs, body?_settle, body?_act_new hs.clean]
  cases hb : (a.made s)[i]? with
  | none => rfl
  | some b =>
    rw [Option.map_some]
    split
    · rfl
    · next hdead =>
      cases hp : b.pool? with
      | none => rw [Body.retired_of_pool?_eq_none hp]
      | some p =>
        have hnew : (a.act s).poolOf? (s.next + i) = some p := by
          rw [poolOf?, body?_act_new hs.clean, hb]
          exact hp
        obtain ⟨rfl, rfl⟩ := poolOf?_act_new hs.clean hnew
        exact absurd (next_mem_living_takeGroup hs p) hdead

/-- A living place is touched, and that is all. -/
theorem body?_apply_of_living (hs : s.Sound) (a : Action) {q : Ref} (hq : q < s.next)
    (h : q ∈ (a.apply s).1.living) : (a.apply s).1.body? q = (s.body? q).map (a.touch q) := by
  rw [body?_apply hs a hq]
  simp only [h, if_true]

/-- A group stays with its pool unless it is released or dead. -/
theorem poolOf?_apply_eq_some (hs : s.Sound) (a : Action) {q : Ref} (hq : q < s.next) (p : Nat) :
    (a.apply s).1.poolOf? q = some p ↔
      s.poolOf? q = some p ∧ q ∈ (a.apply s).1.living ∧ a ≠ release q := by
  rw [apply_eq_settle hs, poolOf?_settle, mem_living_settle]
  have hreleased : a = release q → (a.act s).poolOf? q = none := by
    rintro rfl
    change (s.retire q).poolOf? q = none
    rw [poolOf?_retire, if_pos rfl]
  constructor
  · intro h
    split at h
    · next hlive =>
      have hne : a ≠ release q := fun heq => absurd ((hreleased heq).symm.trans h) nofun
      exact ⟨poolOf?_act hs.clean hne hq ▸ h, hlive, hne⟩
    · exact absurd h nofun
  · rintro ⟨hp, hlive, hne⟩
    rw [if_pos hlive, poolOf?_act hs.clean hne hq, hp]

/-- The only new group of a pool is the one taken from it. -/
theorem poolOf?_apply_new (hs : s.Sound) {i p : Nat}
    (h : (a.apply s).1.poolOf? (s.next + i) = some p) : a = takeGroup p ∧ i = 0 := by
  rw [apply_eq_settle hs, poolOf?_settle] at h
  split at h
  · exact poolOf?_act_new hs.clean h
  · exact absurd h nofun

/-- The groups of a pool that an action parts from it. -/
def parted (s : Store) (a : Action) (p : Nat) : List Ref :=
  (s.pooled p).filter fun r => !((a.apply s).1.pooled p).elem r

/-- The groups of a pool are those that did not part from it, and the one that was taken. -/
theorem length_pooled_apply (hs : s.Sound) (a : Action) (p : Nat) :
    (s.pooled p).length + a.taken p = ((a.apply s).1.pooled p).length + (parted s a p).length := by
  have hold : (List.range s.next).filter (fun r => (a.apply s).1.poolOf? r = some p) =
      (s.pooled p).filter fun r => ((a.apply s).1.pooled p).elem r := by
    have hpooled : s.pooled p = (List.range s.next).filter fun r => s.poolOf? r = some p := rfl
    rw [hpooled, List.filter_filter]
    apply List.filter_congr
    intro q hq
    have hiff := poolOf?_apply_eq_some hs a (List.mem_range.mp hq) p
    rw [Bool.eq_iff_iff, Bool.and_eq_true, decide_eq_true_eq, decide_eq_true_eq, List.elem_iff,
      mem_pooled]
    exact ⟨fun h => ⟨h, (hiff.mp h).1⟩, fun h => h.1⟩
  have hnew := length_new_pooled (a := a) (fun i => poolOf?_apply_new hs (p := p))
    (fun heq => by
      subst heq
      rw [poolOf?, ← Nat.add_zero s.next, body?_apply_new hs]
      rfl)
  have hlen : ((a.apply s).1.pooled p).length =
      ((s.pooled p).filter fun r => ((a.apply s).1.pooled p).elem r).length + a.taken p := by
    rw [← hold, ← hnew, ← List.length_append, ← List.filter_append, ← List.range_add,
      ← next_apply hs, pooled]
  have hsplit := List.length_eq_countP_add_countP
    (fun r => ((a.apply s).1.pooled p).elem r) (l := s.pooled p)
  simp only [List.countP_eq_length_filter, Bool.not_eq_true, Bool.decide_eq_false] at hsplit
  rw [parted]
  omega

/-- An action that settles nothing parts no group from its pool. -/
theorem parted_of_not_settles (hs : s.Sound) (h : a.settles = false) (p : Nat) :
    parted s a p = [] := by
  apply List.filter_eq_nil_iff.mpr
  intro r hr
  have hpool := mem_pooled.mp hr
  have hlive := (mem_living_apply hs a r).mpr (living_subset_act hs h r (hs.settled r p hpool))
  have hne : a ≠ release r := fun heq => absurd (heq ▸ h) nofun
  have hkept := (poolOf?_apply_eq_some hs a (lt_next_of_poolOf? hpool) p).mpr ⟨hpool, hlive, hne⟩
  rw [Bool.not_eq_true, Bool.not_eq_false']
  exact List.elem_iff.mpr (mem_pooled.mpr hkept)

/-- In each pool one buffer came back for each group that parted from it, and nothing else
happened but the action's own use of the pool. -/
theorem pool?_apply (hs : s.Sound) (a : Action) {p : Nat} {pool : Pool}
    (hp : s.pool? p = some pool) :
    (a.apply s).1.pool? p = some ((a.onPool p pool).refill (parted s a p).length) := by
  obtain ⟨n, hn, hpool⟩ := account_act hs.clean a hp
  obtain ⟨m, hm, hpool'⟩ := returned_settle (a.act s) p
  have hlen := length_pooled_apply hs a p
  rw [apply_eq_settle hs] at hlen
  have hsum : (parted s a p).length = n + m := by omega
  rw [apply_eq_settle hs, hpool', hpool, Option.map_some, hsum, Pool.refill_add]

/-- The only new pool is the one that was made, and none of its buffers waits. -/
theorem pool?_apply_new (hs : s.Sound) (a : Action) {p : Nat} (hp : s.pool? p = none) :
    (a.apply s).1.pool? p = a.newPools[p - s.pools.length]? := by
  by_cases hadd : ∃ settings, a = addPool settings
  · obtain ⟨settings, rfl⟩ := hadd
    exact pool?_act_new hs.clean (addPool settings) nofun hp
  · have hnone : (a.act s).pool? p = none ∧ a.newPools[p - s.pools.length]? = none := by
      have hnew : a.newPools = [] := by
        cases a with
        | addPool settings => exact absurd ⟨settings, rfl⟩ hadd
        | _ => rfl
      by_cases hrelease : ∃ r, a = release r
      · obtain ⟨r, rfl⟩ := hrelease
        obtain ⟨n, -, hpool⟩ := returned_retire r s p
        exact ⟨hpool.trans (by rw [hp]; rfl), rfl⟩
      · rw [pool?_act_new hs.clean a (fun r heq => hrelease ⟨r, heq⟩) hp, hnew]
        exact ⟨rfl, rfl⟩
    obtain ⟨n, -, hpool⟩ := returned_settle (a.act s) p
    rw [apply_eq_settle hs, hpool, hnone.1, hnone.2]
    rfl

private theorem poolsClean_apply (hs : s.Sound) (a : Action) : (a.apply s).1.PoolsClean := by
  intro p pool hp
  cases hold : s.pool? p with
  | none =>
    rw [pool?_apply_new hs a hold] at hp
    have hmem := List.mem_of_getElem? hp
    cases a with
    | addPool settings =>
      cases List.mem_singleton.mp hmem
      exact ⟨nofun, Nat.zero_le _, nofun⟩
    | _ => exact absurd hmem List.not_mem_nil
  | some old =>
    cases hp.symm.trans (pool?_apply hs a hold)
    exact Pool.clean_refill (clean_onPool a p (hs.clean p old hold)) _

/-- Every allowed action leaves a sound store. -/
theorem sound_apply (hs : s.Sound) (ha : s.Allowed a) : (a.apply s).1.Sound := by
  refine ⟨fun q b hb r hr => ?_, fun r p hp => ?_, poolsClean_apply hs a⟩
  · rw [next_apply hs]
    by_cases hq : q < s.next
    · rw [body?_apply hs a hq] at hb
      obtain ⟨b₀, hb₀, rfl⟩ := Option.map_eq_some_iff.mp hb
      have htouched : r ∈ (a.touch q b₀).holds := by
        split at hr
        · exact hr
        · exact Body.holds_retired_subset _ r hr
      rcases holds_touch htouched with hold | hgiven
      · exact Nat.lt_add_right _ (hs.held_lt q b₀ hb₀ r hold)
      · exact Nat.lt_add_right _ (lt_next_of_mem_living (ha.1 r hgiven))
    · obtain ⟨i, rfl⟩ := Nat.exists_eq_add_of_le (Nat.le_of_not_lt hq)
      rw [body?_apply_new hs] at hb
      obtain ⟨hi, -⟩ := List.getElem?_eq_some_iff.mp hb
      rcases holds_made hs ha hb hr with hold | hnew
      · exact Nat.lt_add_right _ (lt_next_of_mem_living hold)
      · exact Nat.lt_trans hnew.2 (Nat.add_lt_add_left hi _)
  · rw [apply_eq_settle hs, poolOf?_settle] at hp
    split at hp
    · next hlive => exact (mem_living_apply hs a r).mpr hlive
    · exact absurd hp nofun

end Action

end Mishap.Store
