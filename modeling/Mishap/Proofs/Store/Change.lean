import Mishap.Proofs.Store.PoolUse

/-!
# The change that an action names

An action touches old places, makes new ones, moves holds from outside and uses pools (`act_eq`).
What it leaves dead is retired afterwards, and is no part of this.
-/

namespace Mishap

namespace Store

namespace Action

/-- What an action does to what is at an old place. -/
def touch (a : Action) (q : Ref) (b : Body) : Body :=
  match a with
  | edit r e => if r = q then b.edited e else b
  | append r member? => if r = q then b.withMembers (· ++ member?.toList) else b
  | clear r => if r = q then b.withMembers fun _ => [] else b
  | release r => if r = q then b.retired else b
  | _ => b

/-- What an action makes, in the order of the places. -/
def made (s : Store) : Action → List Body
  | leaf message levels => inEnvelopes (.leaf message) levels
  | decorate message frames levels => inEnvelopes (.decorated (s.fresh message frames)) levels
  | wrap cause message frames levels =>
    inEnvelopes (.decorated (s.freshOver cause message frames)) levels
  | system message => [.system message]
  | veil inner => [.veiled inner (s.source? inner)]
  | link message source => [.linked message source]
  | join parts => [.joined parts]
  | addGroup => [.group ⟨[], none⟩]
  | takeGroup p => [.group ⟨[], some p⟩]
  | joinGroup r => if s.members r = [] then [] else [.joined (s.members r)]
  | _ => []
where
  /-- An error and the envelopes around it, from within. -/
  inEnvelopes (b : Body) (levels : Nat) : List Body :=
    b :: (List.range levels).map fun level => .envelope (s.next + level)

/-- The last of the new places, if any is made. -/
def newest (s : Store) (bs : List Body) : List Ref :=
  match bs.length with
  | 0 => []
  | n + 1 => [s.next + n]

/-- The holds from outside after an action: what it made last is held by the caller. -/
def rootsAfter (s : Store) : Action → List Ref
  | hold r => r :: s.roots
  | letGo r => s.roots.erase r
  | a => newest s (a.made s) ++ s.roots

/-- An action before the dead groups are retired. -/
def act : Action → Store → Store
  | clear r, s =>
    match s.group? r with
    | some g => s.setGroup r { g with members := [] }
    | none => s
  | release r, s => s.retire r
  | letGo r, s => { s with roots := s.roots.erase r }
  | a, s => (a.apply s).1

end Action

/-! ### What is at the places -/

/-- What is at each place. -/
def bodies (s : Store) : List Body := s.cells.map (·.body)

private theorem body?_eq_getElem? (s : Store) (r : Ref) : s.body? r = s.bodies[r]? :=
  List.getElem?_map.symm

private theorem length_bodies (s : Store) : s.bodies.length = s.next := List.length_map _

private theorem bodies_add (b : Body) (s : Store) : (s.add b).1.bodies = s.bodies ++ [b] :=
  List.map_append

private theorem bodies_addEnvelope (inner : Ref) (s : Store) :
    (s.addEnvelope inner).1.bodies = s.bodies ++ [.envelope inner] := by
  unfold addEnvelope
  split
  · exact List.map_append
  · exact bodies_add _ s

private theorem addEnvelope_snd (inner : Ref) (s : Store) : (s.addEnvelope inner).2 = s.next := by
  unfold addEnvelope
  split <;> rfl

private theorem addEnvelope_roots_pools (inner : Ref) (s : Store) :
    (s.addEnvelope inner).1.roots = s.roots ∧ (s.addEnvelope inner).1.pools = s.pools := by
  unfold addEnvelope
  split <;> exact ⟨rfl, rfl⟩

private theorem inEnvelopes_succ (s : Store) (b : Body) (levels : Nat) :
    Action.made.inEnvelopes s b (levels + 1) =
      Action.made.inEnvelopes s b levels ++ [.envelope (s.next + levels)] := by
  rw [Action.made.inEnvelopes, List.range_succ, List.map_append]
  rfl

private theorem length_inEnvelopes (s : Store) (b : Body) (levels : Nat) :
    (Action.made.inEnvelopes s b levels).length = levels + 1 := by
  rw [Action.made.inEnvelopes, List.length_cons, List.length_map, List.length_range]

/-- Each envelope holds the place before its own. -/
theorem bodies_envelop (levels : Nat) (b : Body) (s : Store) :
    (envelop levels (s.add b)).1.bodies = s.bodies ++ Action.made.inEnvelopes s b levels ∧
      (envelop levels (s.add b)).2 = s.next + levels := by
  induction levels with
  | zero => exact ⟨bodies_add b s, rfl⟩
  | succ levels ih =>
    have hnext := length_bodies (envelop levels (s.add b)).1
    rw [ih.1, List.length_append, length_bodies, length_inEnvelopes] at hnext
    rw [envelop, bodies_addEnvelope, addEnvelope_snd, ih.1, ih.2, inEnvelopes_succ,
      List.append_assoc]
    exact ⟨rfl, hnext.symm⟩

private theorem envelop_roots_pools (levels : Nat) (made : Store × Ref) :
    (envelop levels made).1.roots = made.1.roots ∧
      (envelop levels made).1.pools = made.1.pools := by
  induction levels with
  | zero => exact ⟨rfl, rfl⟩
  | succ levels ih =>
    have h := addEnvelope_roots_pools (envelop levels made).2 (envelop levels made).1
    exact ⟨h.1.trans ih.1, h.2.trans ih.2⟩

private theorem bodies_setBody {s : Store} {r : Ref} {b : Body} (f : Body → Body)
    (h : s.body? r = some b) : (s.setBody r (f b)).bodies = s.bodies.modify r f := by
  ext q : 1
  rw [← body?_eq_getElem?, body?_setBody, List.getElem?_modify, ← body?_eq_getElem?]
  by_cases heq : r = q
  · subst heq
    simp only [if_true, h, Option.map_eq_map, Option.map_some]
  · simp only [heq, if_false, Option.map_eq_map, Option.map_id']

private theorem mapIdx_id {α : Type} (l : List α) : l.mapIdx (fun _ b => b) = l := by
  ext q : 1
  rw [List.getElem?_mapIdx, Option.map_id']

private theorem eq_mapIdx {α : Type} (l : List α) : l = l.mapIdx (fun _ b => b) ++ [] := by
  rw [mapIdx_id, List.append_nil]

private theorem modify_eq {α : Type} (l : List α) (r : Nat) (f : α → α) :
    l.modify r f = (l.mapIdx fun q b => if r = q then f b else b) ++ [] := by
  ext q : 1
  rw [List.append_nil, List.getElem?_modify, List.getElem?_mapIdx]
  rfl

private theorem bodies_change (r : Ref) (e : Decorated.Edit) (s : Store) :
    (s.change r e.apply).1.bodies = s.bodies.modify r (Body.edited e) := by
  unfold change decorated?
  split
  · next d hd =>
    split at hd
    · next d' hb =>
      cases hd
      exact bodies_setBody (Body.edited e) hb
    · exact absurd hd nofun
  · next hd =>
    refine (modify_eq_of_fixed fun b hb => ?_).symm
    rw [← body?_eq_getElem?] at hb
    rw [hb] at hd
    cases b with
    | decorated d => exact absurd hd nofun
    | _ => rfl

private theorem bodies_withMembers (r : Ref) (f : List Ref → List Ref) (s : Store) :
    (match s.group? r with
      | some g => s.setGroup r { g with members := f g.members }
      | none => s).bodies = s.bodies.modify r (Body.withMembers f) := by
  unfold group?
  split
  · next g hg =>
    split at hg
    · next g' hb =>
      cases hg
      exact bodies_setBody (Body.withMembers f) hb
    · exact absurd hg nofun
  · next hg =>
    refine (modify_eq_of_fixed fun b hb => ?_).symm
    rw [← body?_eq_getElem?] at hb
    rw [hb] at hg
    cases b with
    | group g => exact absurd hg nofun
    | _ => rfl

private theorem bodies_retire (r : Ref) (s : Store) :
    (s.retire r).bodies = s.bodies.modify r Body.retired := by
  ext q : 1
  rw [← body?_eq_getElem?, body?_retire, List.getElem?_modify, ← body?_eq_getElem?]
  by_cases heq : r = q
  · simp only [heq, if_true, Option.map_eq_map]
  · simp only [heq, if_false, Option.map_eq_map, Option.map_id']

/-! ### Before the dead are retired -/

namespace Action

variable {s : Store}

/-- The pools after an action, apart from buffers of the dead. -/
def poolsAfter (s : Store) : Action → List Pool
  | release r => (s.retire r).pools
  | a => s.pools.mapIdx a.onPool ++ a.newPools

private theorem act_takeGroup (hclean : s.PoolsClean) (p : Nat) :
    act (takeGroup p) s = handOver ((s.modifyPool p Pool.lend).add (.group ⟨[], some p⟩)) := by
  change handOver ((s.takeGroup p).1, (s.takeGroup p).2.1) = _
  rw [takeGroup_eq hclean]
  rfl

private theorem edit_roots_pools (r : Ref) (e : Decorated.Edit) :
    (act (edit r e) s).roots = s.roots ∧ (act (edit r e) s).pools = s.pools := by
  change (s.change r e.apply).1.roots = _ ∧ (s.change r e.apply).1.pools = _
  unfold change
  split <;> exact ⟨rfl, rfl⟩

private theorem append_roots_pools (r m : Ref) :
    (act (append r (some m)) s).roots = s.roots ∧ (act (append r (some m)) s).pools = s.pools := by
  change (s.append r m).roots = _ ∧ (s.append r m).pools = _
  unfold Store.append
  split <;> exact ⟨rfl, rfl⟩

private theorem clear_roots_pools (r : Ref) :
    (act (clear r) s).roots = s.roots ∧ (act (clear r) s).pools = s.pools := by
  rw [act]
  split <;> exact ⟨rfl, rfl⟩

private theorem handOver_add (s : Store) (b : Body) :
    (handOver (s.add b)).bodies = s.bodies.mapIdx (fun _ b => b) ++ [b] ∧
      (handOver (s.add b)).roots = s.next :: s.roots ∧
      (handOver (s.add b)).pools = s.pools.mapIdx (fun _ pool => pool) ++ [] := by
  refine ⟨?_, rfl, eq_mapIdx s.pools⟩
  rw [mapIdx_id]
  exact bodies_add b s

private theorem handOver_envelop (s : Store) (b : Body) (levels : Nat) :
    let t := handOver (envelop levels (s.add b))
    t.bodies = s.bodies.mapIdx (fun _ b => b) ++ made.inEnvelopes s b levels ∧
      t.roots = newest s (made.inEnvelopes s b levels) ++ s.roots ∧
      t.pools = s.pools.mapIdx (fun _ pool => pool) ++ [] := by
  intro t
  obtain ⟨hmade, hlast⟩ := bodies_envelop levels b s
  obtain ⟨hroots, hkept⟩ := envelop_roots_pools levels (s.add b)
  change _ ∧ (envelop levels (s.add b)).2 :: (envelop levels (s.add b)).1.roots = _ ∧ _
  rw [mapIdx_id, hroots, hlast, newest, length_inEnvelopes]
  exact ⟨hmade, rfl, hkept.trans (eq_mapIdx s.pools)⟩

/-- Before the dead are retired, an action has touched the old places and made new ones, moved
holds from outside, and used pools. -/
theorem act_eq (hclean : s.PoolsClean) (a : Action) :
    (a.act s).bodies = s.bodies.mapIdx a.touch ++ a.made s ∧
      (a.act s).roots = a.rootsAfter s ∧ (a.act s).pools = a.poolsAfter s := by
  have hbodies := eq_mapIdx s.bodies
  have hpools := eq_mapIdx s.pools
  -- For each action `touch`, `made`, `rootsAfter` and `poolsAfter` unfold to what it does, in the
  -- form of the lemmas above.
  cases a with
  | leaf message levels => exact handOver_envelop s _ levels
  | decorate message frames levels => exact handOver_envelop s _ levels
  | wrap cause message frames levels => exact handOver_envelop s _ levels
  | system message => exact handOver_add s _
  | veil inner => exact handOver_add s _
  | link message source => exact handOver_add s _
  | join parts => exact handOver_add s _
  | edit r e =>
    obtain ⟨hroots, hkept⟩ := edit_roots_pools (s := s) r e
    exact ⟨(bodies_change r e s).trans (modify_eq _ _ _), hroots, hkept.trans hpools⟩
  | report r => exact ⟨hbodies, rfl, hpools⟩
  | addPool settings =>
    have hnew : (s.addPool settings).1.pools =
        s.pools.mapIdx (fun _ pool => pool) ++ [⟨settings, [], 1⟩] := by
      rw [mapIdx_id]
      rfl
    exact ⟨hbodies, rfl, hnew⟩
  | sharePool p => exact ⟨hbodies, rfl, modify_eq s.pools p Pool.shared⟩
  | dropPool p => exact ⟨hbodies, rfl, modify_eq s.pools p Pool.unshared⟩
  | addGroup => exact handOver_add s _
  | takeGroup p =>
    rw [act_takeGroup hclean]
    exact ⟨(handOver_add s _).1, rfl, modify_eq s.pools p Pool.lend⟩
  | append r member? =>
    cases member? with
    | none =>
      have hsame : s.bodies.modify r (Body.withMembers (· ++ [])) = s.bodies := by
        apply modify_eq_of_fixed
        intro b _
        cases b with
        | group g =>
          exact congrArg (fun ms => Body.group { g with members := ms }) (List.append_nil _)
        | _ => rfl
      exact ⟨hsame.symm.trans (modify_eq _ _ _), rfl, hpools⟩
    | some member =>
      obtain ⟨hroots, hkept⟩ := append_roots_pools (s := s) r member
      have hadded := bodies_withMembers r (· ++ [member]) s
      exact ⟨hadded.trans (modify_eq _ _ _), hroots, hkept.trans hpools⟩
  | clear r =>
    obtain ⟨hroots, hkept⟩ := clear_roots_pools (s := s) r
    have hcleared := bodies_withMembers r (fun _ => []) s
    exact ⟨hcleared.trans (modify_eq _ _ _), hroots, hkept.trans hpools⟩
  | release r => exact ⟨(bodies_retire r s).trans (modify_eq _ _ _), roots_retire r s, rfl⟩
  | joinGroup r =>
    have h : act (joinGroup r) s = ((s.joinGroup r).map handOver).getD s := rfl
    have hroots : rootsAfter s (joinGroup r) = newest s (made s (joinGroup r)) ++ s.roots := rfl
    rw [h, hroots, Store.joinGroup, made]
    cases s.members r with
    | nil => exact ⟨hbodies, rfl, hpools⟩
    | cons member members => exact handOver_add s _
  | hold r => exact ⟨hbodies, rfl, hpools⟩
  | letGo r => exact ⟨hbodies, rfl, hpools⟩

/-- An action touches the old places and makes the new ones. -/
theorem bodies_act (hclean : s.PoolsClean) (a : Action) :
    (a.act s).bodies = s.bodies.mapIdx a.touch ++ a.made s :=
  (act_eq hclean a).1

/-- An action makes places for what it makes. -/
theorem next_act (hclean : s.PoolsClean) (a : Action) :
    (a.act s).next = s.next + (a.made s).length := by
  rw [← length_bodies, bodies_act hclean, List.length_append, List.length_mapIdx, length_bodies]

/-- An action touches the old errors, and nothing else happens to them. -/
theorem body?_act (hclean : s.PoolsClean) (a : Action) {q : Ref} (hq : q < s.next) :
    (a.act s).body? q = (s.body? q).map (a.touch q) := by
  have hlt : q < (s.bodies.mapIdx a.touch).length := by
    rw [List.length_mapIdx, length_bodies]
    exact hq
  rw [body?_eq_getElem?, bodies_act hclean, List.getElem?_append_left hlt, List.getElem?_mapIdx,
    ← body?_eq_getElem?]

/-- The new places have what the action makes, in order. -/
theorem body?_act_new (hclean : s.PoolsClean) (a : Action) (i : Nat) :
    (a.act s).body? (s.next + i) = (a.made s)[i]? := by
  have hle : (s.bodies.mapIdx a.touch).length ≤ s.next + i := by
    rw [List.length_mapIdx, length_bodies]
    exact Nat.le_add_right _ _
  rw [body?_eq_getElem?, bodies_act hclean, List.getElem?_append_right hle, List.length_mapIdx,
    length_bodies, Nat.add_sub_cancel_left]

/-- What was made last is held by the caller. -/
theorem roots_act (hclean : s.PoolsClean) (a : Action) : (a.act s).roots = a.rootsAfter s :=
  (act_eq hclean a).2.1

/-- Any action but a release uses the old pools and makes the new ones. -/
theorem pools_act (hclean : s.PoolsClean) (a : Action) (hrelease : ∀ r, a ≠ release r) :
    (a.act s).pools = s.pools.mapIdx a.onPool ++ a.newPools := by
  rw [(act_eq hclean a).2.2]
  cases a with
  | release r => exact absurd rfl (hrelease r)
  | _ => rfl

/-- An action but a release does to an old pool what it does to pools. -/
theorem pool?_act (hclean : s.PoolsClean) (a : Action) (hrelease : ∀ r, a ≠ release r) {p : Nat}
    {pool : Pool} (hp : s.pool? p = some pool) :
    (a.act s).pool? p = some (a.onPool p pool) := by
  have hlt : p < (s.pools.mapIdx a.onPool).length := by
    rw [List.length_mapIdx]
    exact (List.getElem?_eq_some_iff.mp hp).1
  have hget : s.pools[p]? = some pool := hp
  rw [pool?, pools_act hclean a hrelease, List.getElem?_append_left hlt, List.getElem?_mapIdx, hget]
  rfl

/-- The pools behind the old ones are those that the action makes. -/
theorem pool?_act_new (hclean : s.PoolsClean) (a : Action) (hrelease : ∀ r, a ≠ release r)
    {p : Nat} (hp : s.pool? p = none) :
    (a.act s).pool? p = a.newPools[p - s.pools.length]? := by
  have hle : (s.pools.mapIdx a.onPool).length ≤ p := by
    rw [List.length_mapIdx]
    exact List.getElem?_eq_none_iff.mp hp
  rw [pool?, pools_act hclean a hrelease, List.getElem?_append_right hle, List.length_mapIdx]

/-- A new group is empty, and of a pool if it was taken from one. -/
theorem group?_made {a : Action} {i : Nat} {b : Body} (hb : (a.made s)[i]? = some b) {g : Group}
    (hg : b.group? = some g) :
    i = 0 ∧ (a = addGroup ∧ g = ⟨[], none⟩ ∨ ∃ p, a = takeGroup p ∧ g = ⟨[], some p⟩) := by
  have hmem := List.mem_of_getElem? hb
  have hlt := (List.getElem?_eq_some_iff.mp hb).1
  have hother : b.group? ≠ none := fun hnone => Option.some_ne_none g (hg.symm.trans hnone)
  have henvelop : ∀ {b' levels}, b'.group? = none → b ∉ made.inEnvelopes s b' levels := by
    intro b' levels hnone hmem
    rcases List.mem_cons.mp hmem with rfl | hmem
    · exact hother hnone
    · obtain ⟨level, -, rfl⟩ := List.mem_map.mp hmem
      exact hother rfl
  have hmake : ∀ {b'}, b'.group? = none → b ∉ [b'] := fun hnone hmem =>
    hother (List.mem_singleton.mp hmem ▸ hnone)
  cases a with
  | leaf message levels => exact absurd hmem (henvelop rfl)
  | decorate message frames levels => exact absurd hmem (henvelop rfl)
  | wrap cause message frames levels => exact absurd hmem (henvelop rfl)
  | system message => exact absurd hmem (hmake rfl)
  | veil inner => exact absurd hmem (hmake rfl)
  | link message source => exact absurd hmem (hmake rfl)
  | join parts => exact absurd hmem (hmake rfl)
  | addGroup =>
    cases List.mem_singleton.mp hmem
    cases hg
    exact ⟨Nat.lt_one_iff.mp hlt, .inl ⟨rfl, rfl⟩⟩
  | takeGroup p =>
    cases List.mem_singleton.mp hmem
    cases hg
    exact ⟨Nat.lt_one_iff.mp hlt, .inr ⟨p, rfl, rfl⟩⟩
  | joinGroup r =>
    rw [made] at hmem
    split at hmem
    · exact absurd hmem List.not_mem_nil
    · exact absurd hmem (hmake rfl)
  | _ => exact absurd hmem List.not_mem_nil

end Action

end Store

end Mishap
