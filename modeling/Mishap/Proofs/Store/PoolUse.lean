import Mishap.Proofs.Store.Action

/-!
# Uses of pools

What an action does to a pool by itself: it lends a buffer, or takes or gives up a handle. A pool
whose buffers are empty stays so, and gives empty groups (`takeGroup_eq`).
-/

namespace Mishap

namespace Pool

private theorem clean_lend {p : Pool} (h : p.Clean) : p.lend.Clean := by
  refine ⟨fun buffer hb => h.empty buffer (List.mem_of_mem_tail hb), ?_, fun hzero => ?_⟩
  · have hle : p.free.tail.length ≤ p.free.length := List.length_tail ▸ Nat.sub_le _ _
    exact Nat.le_trans hle h.bounded
  · rw [lend, h.closed hzero]
    rfl

private theorem clean_shared {p : Pool} (h : p.Clean) : p.shared.Clean :=
  ⟨h.empty, h.bounded, nofun⟩

private theorem clean_unshared {p : Pool} (h : p.Clean) : p.unshared.Clean := by
  unfold unshared
  split
  · exact ⟨nofun, Nat.zero_le _, fun _ => rfl⟩
  · refine ⟨h.empty, h.bounded, fun hzero => ?_⟩
    have hz : p.handles - 1 = 0 := hzero
    omega

end Pool

namespace Store

/-- A change that leaves the element as it is leaves the list as it is. -/
theorem modify_eq_of_fixed {α : Type} {l : List α} {r : Nat} {f : α → α}
    (h : ∀ b, l[r]? = some b → f b = b) : l.modify r f = l := by
  ext q : 1
  rw [List.getElem?_modify]
  by_cases heq : r = q
  · subst heq
    cases hb : l[r]? with
    | none => rfl
    | some b => simp only [if_true, Option.map_eq_map, Option.map_some, h b hb]
  · simp only [heq, if_false, Option.map_eq_map, Option.map_id']

/-- Every pool is clean. -/
def PoolsClean (s : Store) : Prop := ∀ p pool, s.pool? p = some pool → pool.Clean

private theorem lend_eq_self {s : Store} {p : Nat}
    (h : ∀ pool, s.pool? p = some pool → pool.free = []) : s.modifyPool p Pool.lend = s := by
  have hpools : s.pools.modify p Pool.lend = s.pools := by
    apply modify_eq_of_fixed
    intro pool hpool
    have hfree := h pool hpool
    rw [Pool.lend, hfree, List.tail_nil, ← hfree]
  rw [modifyPool, hpools]

/-- From a clean pool comes an empty group of the pool, and nobody hears of it. -/
theorem takeGroup_eq {s : Store} (hclean : s.PoolsClean) (p : Nat) :
    s.takeGroup p =
      (((s.modifyPool p Pool.lend).add (.group ⟨[], some p⟩)).1, s.next, []) := by
  unfold takeGroup
  cases hp : s.pool? p with
  | none =>
    rw [lend_eq_self fun pool hpool => absurd (hpool.symm.trans hp) (Option.some_ne_none pool)]
    rfl
  | some pool =>
    rw [Option.map_some]
    cases hfree : pool.free with
    | nil =>
      have hnone : ∀ pool', s.pool? p = some pool' → pool'.free = [] := by
        intro pool' hp'
        rw [← Option.some.inj (hp.symm.trans hp'), hfree]
      rw [lend_eq_self hnone]
      rfl
    | cons buffer free =>
      have hempty := (hclean p pool hp).empty buffer (by rw [hfree]; exact List.mem_cons_self)
      subst hempty
      rfl

namespace Action

/-- What an action does to a pool, apart from buffers that come back. -/
def onPool (a : Action) (p : Nat) (pool : Pool) : Pool :=
  match a with
  | sharePool p' => if p' = p then pool.shared else pool
  | dropPool p' => if p' = p then pool.unshared else pool
  | takeGroup p' => if p' = p then pool.lend else pool
  | _ => pool

/-- The pools that an action makes. -/
def newPools : Action → List Pool
  | addPool settings => [⟨settings, [], 1⟩]
  | _ => []

/-- How many groups an action takes from a pool. -/
def taken (a : Action) (p : Nat) : Nat :=
  match a with
  | takeGroup p' => if p' = p then 1 else 0
  | _ => 0

/-- The buffers in a pool stay empty. -/
theorem clean_onPool (a : Action) (p : Nat) {pool : Pool} (h : pool.Clean) :
    (a.onPool p pool).Clean := by
  unfold onPool
  split
  · split
    · exact Pool.clean_shared h
    · exact h
  · split
    · exact Pool.clean_unshared h
    · exact h
  · split
    · exact Pool.clean_lend h
    · exact h
  · exact h

/-- The settings of a pool stay as they are. -/
theorem settings_onPool (a : Action) (p : Nat) (pool : Pool) :
    (a.onPool p pool).settings = pool.settings := by
  unfold onPool
  split
  · split <;> rfl
  · split
    · rw [Pool.unshared]
      split <;> rfl
    · rfl
  · split <;> rfl
  · rfl

/-- No use of a pool adds a buffer to it, and each group that is taken takes one that waits. -/
theorem idle_onPool_le (a : Action) (p : Nat) (pool : Pool) :
    (a.onPool p pool).idle ≤ pool.idle - a.taken p := by
  cases a with
  | sharePool p' => unfold onPool; dsimp only; split <;> exact Nat.le_refl _
  | dropPool p' =>
    unfold onPool
    dsimp only
    split
    · rw [Pool.unshared]
      split
      · exact Nat.zero_le _
      · exact Nat.le_refl _
    · exact Nat.le_refl _
  | takeGroup p' =>
    unfold onPool taken
    dsimp only
    split
    · exact Nat.le_of_eq List.length_tail
    · exact Nat.le_refl _
  | _ => exact Nat.le_refl _

/-- Apart from groups that are taken, the buffers of a pool stay as long as it is open. -/
theorem idle_onPool_of_open {a : Action} {p : Nat} {pool : Pool} (hne : a ≠ takeGroup p)
    (hopen : (a.onPool p pool).handles ≠ 0) : (a.onPool p pool).idle = pool.idle := by
  cases a with
  | sharePool p' =>
    simp only [onPool]
    split <;> rfl
  | dropPool p' =>
    simp only [onPool] at hopen ⊢
    split at hopen
    · next heq =>
      rw [if_pos heq]
      unfold Pool.unshared at hopen ⊢
      split at hopen
      · exact absurd rfl hopen
      · next hlt =>
        rw [if_neg hlt]
        rfl
    · next hother => rw [if_neg hother]
  | takeGroup p' =>
    simp only [onPool]
    rw [if_neg fun heq => hne (congrArg takeGroup heq)]
  | _ => rfl

/-- A new pool has no idle buffers. -/
theorem idle_of_newPools {a : Action} {pool : Pool} (h : pool ∈ a.newPools) : pool.idle = 0 := by
  cases a with
  | addPool settings =>
    cases List.mem_singleton.mp h
    rfl
  | _ => exact absurd h List.not_mem_nil

end Action

end Store

end Mishap
