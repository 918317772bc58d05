import Mishap.Store.Groups
import Mishap.Proofs.Store.Living

/-!
# Giving buffers back

A group that still belongs to a pool parts from it once, when it is released or when it is found
dead, and the pool takes one buffer back for it. `body?_retire` and `body?_settle` say what becomes
of each place. `Returned` is the account: the pools have taken back one buffer for each group that
parted from them, and nothing else happened to them.
-/

namespace Mishap

namespace Body

/-- The pool that a group still belongs to. -/
def pool? : Body → Option Nat
  | group g => g.pool?
  | _ => none

/-- A group of a pool, parted from the pool and from its members; anything else is as it was. -/
def retired (b : Body) : Body := if b.pool?.isSome then group ⟨[], none⟩ else b

private theorem pool?_retired (b : Body) : b.retired.pool? = none := by
  unfold retired
  split
  · rfl
  · next h => exact Option.not_isSome_iff_eq_none.mp h

/-- What is of no pool stays as it is when it is retired. -/
theorem retired_of_pool?_eq_none {b : Body} (h : b.pool? = none) : b.retired = b := by
  rw [retired, h]
  rfl

/-- To retire twice is to retire once. -/
@[simp] theorem retired_retired (b : Body) : b.retired.retired = b.retired :=
  retired_of_pool?_eq_none (pool?_retired b)

/-- What is retired holds no more than it held. -/
theorem holds_retired_subset (b : Body) : ∀ r ∈ b.retired.holds, r ∈ b.holds := by
  unfold retired
  split
  · exact fun r hr => absurd hr List.not_mem_nil
  · exact fun r hr => hr

end Body

namespace Pool

/-- A number of buffers come back. -/
def refill : Nat → Pool → Pool
  | 0, p => p
  | n + 1, p => (p.refill n).accept

/-- Buffers come back one after the other, or all at once. -/
theorem refill_add (m n : Nat) (p : Pool) : p.refill (n + m) = (p.refill n).refill m := by
  induction m with
  | zero => rfl
  | succ m ih => rw [← Nat.add_assoc, refill, refill, ih]

private theorem accept_settings_handles (p : Pool) :
    p.accept.settings = p.settings ∧ p.accept.handles = p.handles := by
  unfold accept put
  split
  · split <;> exact ⟨rfl, rfl⟩
  · exact ⟨rfl, rfl⟩

/-- Buffers that come back change neither the settings nor the handles of a pool. -/
theorem refill_settings_handles (n : Nat) (p : Pool) :
    (p.refill n).settings = p.settings ∧ (p.refill n).handles = p.handles := by
  induction n with
  | zero => exact ⟨rfl, rfl⟩
  | succ n ih =>
    have h := accept_settings_handles (p.refill n)
    exact ⟨h.1.trans ih.1, h.2.trans ih.2⟩

/-- The buffers that wait are empty and no more than are allowed; a closed pool has none. -/
structure Clean (p : Pool) : Prop where
  empty : ∀ buffer ∈ p.free, buffer = []
  bounded : p.idle ≤ p.settings.maxIdle
  closed : p.handles = 0 → p.free = []

private theorem clean_accept {p : Pool} (h : p.Clean) : p.accept.Clean := by
  unfold accept
  split
  · next hopen =>
    unfold put
    split
    · next hroom =>
      refine ⟨fun buffer hb => ?_, hroom, fun hzero => absurd hzero (Nat.ne_of_gt hopen)⟩
      rcases List.mem_cons.mp hb with rfl | hb
      · rfl
      · exact h.empty buffer hb
    · exact h
  · exact h

/-- A pool stays clean when buffers come back. -/
theorem clean_refill {p : Pool} (h : p.Clean) (n : Nat) : (p.refill n).Clean := by
  induction n with
  | zero => exact h
  | succ n ih => exact clean_accept ih

/-- An open pool keeps as many of the buffers that come back as there is room for. -/
theorem idle_refill {p : Pool} (h : p.Clean) (hopen : 0 < p.handles) (n : Nat) :
    (p.refill n).idle = min p.settings.maxIdle (p.idle + n) := by
  induction n with
  | zero => exact (Nat.min_eq_right h.bounded).symm
  | succ n ih =>
    obtain ⟨hsettings, hhandles⟩ := refill_settings_handles n p
    have hcons : ([] :: (p.refill n).free).length = (p.refill n).idle + 1 := List.length_cons
    rw [refill, accept, hhandles, if_pos hopen, put, hsettings]
    split
    · rw [idle, hcons]
      omega
    · omega

/-- At most as many buffers become idle as come back. -/
theorem idle_refill_le (p : Pool) (n : Nat) : (p.refill n).idle ≤ p.idle + n := by
  induction n with
  | zero => exact Nat.le_refl _
  | succ n ih =>
    have hcons : ([] :: (p.refill n).free).length = (p.refill n).idle + 1 := List.length_cons
    rw [refill, accept, put]
    split
    · split
      · rw [idle, hcons]
        omega
      · omega
    · omega

end Pool

namespace Store

/-- The pool that the group at a place still belongs to. -/
def poolOf? (s : Store) (r : Ref) : Option Nat := (s.body? r).bind Body.pool?

/-- A group is pooled exactly if it is of some pool. -/
theorem isPooled_eq (s : Store) (r : Ref) : s.isPooled r = (s.poolOf? r).isSome := by
  unfold isPooled group? poolOf?
  cases s.body? r with
  | none => rfl
  | some b => cases b <;> rfl

/-- What is of a pool is in the store. -/
theorem lt_next_of_poolOf? {s : Store} {r : Ref} {p : Nat} (h : s.poolOf? r = some p) :
    r < s.next := by
  obtain ⟨b, hb, -⟩ := Option.bind_eq_some_iff.mp h
  exact lt_next_of_body? hb

/-! ### One group -/

/-- A new body makes no new place. -/
@[simp] theorem next_setBody (r : Ref) (b : Body) (s : Store) : (s.setBody r b).next = s.next := by
  simp only [next, setBody, List.length_modify]

private theorem pool?_modifyPool (p : Nat) (f : Pool → Pool) (s : Store) (q : Nat) :
    (s.modifyPool p f).pool? q = if p = q then (s.pool? q).map f else s.pool? q := by
  simp only [modifyPool, pool?, List.getElem?_modify]
  by_cases h : p = q
  · simp only [h, if_true, Option.map_eq_map]
  · simp only [h, if_false, Option.map_eq_map, Option.map_id']

/-- A group of a pool parts from it and gives its buffer back. -/
theorem retire_of_pooled {s : Store} {r : Ref} {p : Nat} (h : s.poolOf? r = some p) :
    s.retire r = (s.setGroup r ⟨[], none⟩).giveBack p := by
  obtain ⟨b, hb, hp⟩ := Option.bind_eq_some_iff.mp h
  cases b with
  | group g =>
    have hgroup : s.group? r = some g := by rw [group?, hb]
    have hpool : g.pool? = some p := hp
    rw [retire, hgroup]
    simp only [hpool]
  | _ => exact absurd hp nofun

/-- Nothing else gives anything back. -/
theorem retire_of_not_pooled {s : Store} {r : Ref} (h : s.poolOf? r = none) : s.retire r = s := by
  unfold retire group?
  cases hb : s.body? r with
  | none => rfl
  | some b =>
    rw [poolOf?, hb, Option.bind_some] at h
    cases b with
    | group g =>
      have hpool : g.pool? = none := h
      simp only [hpool]
    | _ => rfl

/-- To retire an error changes that error alone. -/
theorem body?_retire (r : Ref) (s : Store) (q : Ref) :
    (s.retire r).body? q = if r = q then (s.body? q).map Body.retired else s.body? q := by
  cases hp : s.poolOf? r with
  | none =>
    rw [retire_of_not_pooled hp]
    split
    · next heq =>
      subst heq
      cases hb : s.body? r with
      | none => rfl
      | some b =>
        rw [poolOf?, hb, Option.bind_some] at hp
        rw [Option.map_some, Body.retired_of_pool?_eq_none hp]
    · rfl
  | some p =>
    have hbody : ((s.setGroup r ⟨[], none⟩).giveBack p).body? q =
      (s.setBody r (.group ⟨[], none⟩)).body? q := rfl
    rw [retire_of_pooled hp, hbody, body?_setBody]
    split
    · next heq =>
      subst heq
      obtain ⟨b, hb, hpool⟩ := Option.bind_eq_some_iff.mp hp
      rw [hb, Option.map_some, Option.map_some, Body.retired, hpool]
      rfl
    · rfl

private theorem next_retire (r : Ref) (s : Store) : (s.retire r).next = s.next := by
  cases hp : s.poolOf? r with
  | none => rw [retire_of_not_pooled hp]
  | some p =>
    rw [retire_of_pooled hp]
    exact next_setBody r _ s

/-- To retire an error takes no hold away. -/
theorem roots_retire (r : Ref) (s : Store) : (s.retire r).roots = s.roots := by
  cases hp : s.poolOf? r with
  | none => rw [retire_of_not_pooled hp]
  | some p =>
    rw [retire_of_pooled hp]
    rfl

private theorem pool?_retire (r : Ref) (s : Store) (p : Nat) :
    (s.retire r).pool? p =
      if s.poolOf? r = some p then (s.pool? p).map Pool.accept else s.pool? p := by
  cases hp : s.poolOf? r with
  | none => rw [retire_of_not_pooled hp, if_neg nofun]
  | some p' =>
    rw [retire_of_pooled hp, giveBack, pool?_modifyPool]
    simp only [Option.some.injEq]
    rfl

/-- A retired error is of no pool, and any other of the pool that it was of. -/
theorem poolOf?_retire (r : Ref) (s : Store) (q : Ref) :
    (s.retire r).poolOf? q = if r = q then none else s.poolOf? q := by
  rw [poolOf?, body?_retire, poolOf?]
  split
  · cases s.body? q with
    | none => rfl
    | some b => exact Body.pool?_retired b
  · rfl

/-! ### All dead groups -/

/-- Retires the groups of a list that are not to be kept. -/
private def retireAll (kept rs : List Ref) (s : Store) : Store :=
  rs.foldl (fun t r => if kept.elem r then t else t.retire r) s

private theorem retireAll_cons_of_mem {kept : List Ref} {r : Ref} (h : r ∈ kept) (rs : List Ref)
    (s : Store) : retireAll kept (r :: rs) s = retireAll kept rs s := by
  rw [retireAll, List.foldl_cons, if_pos (List.elem_iff.mpr h)]
  rfl

private theorem retireAll_cons_of_not_mem {kept : List Ref} {r : Ref} (h : r ∉ kept)
    (rs : List Ref) (s : Store) : retireAll kept (r :: rs) s = retireAll kept rs (s.retire r) := by
  rw [retireAll, List.foldl_cons, if_neg (fun hr => h (List.elem_iff.mp hr))]
  rfl

private theorem body?_retireAll (kept rs : List Ref) (s : Store) (q : Ref) :
    (retireAll kept rs s).body? q =
      (s.body? q).map fun b => if q ∈ rs ∧ q ∉ kept then b.retired else b := by
  induction rs generalizing s with
  | nil => simp only [retireAll, List.foldl_nil, List.not_mem_nil, false_and, if_false,
      Option.map_id']
  | cons r rs ih =>
    by_cases hr : r ∈ kept
    · rw [retireAll_cons_of_mem hr, ih]
      have hiff : (q ∈ r :: rs ∧ q ∉ kept) ↔ (q ∈ rs ∧ q ∉ kept) := by
        rw [List.mem_cons]
        constructor
        · rintro ⟨rfl | hq, hkept⟩
          · exact absurd hr hkept
          · exact ⟨hq, hkept⟩
        · rintro ⟨hq, hkept⟩
          exact ⟨.inr hq, hkept⟩
      simp only [hiff]
    · rw [retireAll_cons_of_not_mem hr, ih, body?_retire]
      by_cases heq : r = q
      · subst heq
        have hcond : r ∈ r :: rs ∧ r ∉ kept := ⟨List.mem_cons_self, hr⟩
        rw [if_pos rfl, Option.map_map]
        congr 1
        funext b
        rw [Function.comp_apply, if_pos hcond]
        split
        · exact Body.retired_retired b
        · rfl
      · have hiff : (q ∈ r :: rs ∧ q ∉ kept) ↔ (q ∈ rs ∧ q ∉ kept) := by
          rw [List.mem_cons]
          constructor
          · rintro ⟨rfl | hq, hkept⟩
            · exact absurd rfl heq
            · exact ⟨hq, hkept⟩
          · rintro ⟨hq, hkept⟩
            exact ⟨.inr hq, hkept⟩
        simp only [heq, if_false, hiff]

private theorem next_retireAll (kept rs : List Ref) (s : Store) :
    (retireAll kept rs s).next = s.next := by
  induction rs generalizing s with
  | nil => rfl
  | cons r rs ih =>
    by_cases hr : r ∈ kept
    · rw [retireAll_cons_of_mem hr, ih]
    · rw [retireAll_cons_of_not_mem hr, ih, next_retire]

private theorem roots_retireAll (kept rs : List Ref) (s : Store) :
    (retireAll kept rs s).roots = s.roots := by
  induction rs generalizing s with
  | nil => rfl
  | cons r rs ih =>
    by_cases hr : r ∈ kept
    · rw [retireAll_cons_of_mem hr, ih]
    · rw [retireAll_cons_of_not_mem hr, ih, roots_retire]

private theorem settle_eq (s : Store) :
    s.settle = retireAll s.living (List.range s.cells.length) s := rfl

private theorem retireAll_eq_self {kept rs : List Ref} {s : Store}
    (h : ∀ r, r ∉ kept → s.poolOf? r = none) : retireAll kept rs s = s := by
  induction rs with
  | nil => rfl
  | cons r rs ih =>
    by_cases hr : r ∈ kept
    · rw [retireAll_cons_of_mem hr, ih]
    · rw [retireAll_cons_of_not_mem hr, retire_of_not_pooled (h r hr), ih]

/-- Where only the living still have a buffer, nothing is left to settle. -/
theorem settle_eq_self {s : Store} (h : ∀ r p, s.poolOf? r = some p → r ∈ s.living) :
    s.settle = s := by
  rw [settle_eq]
  apply retireAll_eq_self
  intro r hr
  cases hp : s.poolOf? r with
  | none => rfl
  | some p => exact absurd (h r p hp) hr

/-- Settling retires what is dead, and nothing else. -/
theorem body?_settle (s : Store) (q : Ref) :
    s.settle.body? q = (s.body? q).map fun b => if q ∈ s.living then b else b.retired := by
  rw [settle_eq, body?_retireAll]
  by_cases hlt : q < s.next
  · congr 1
    funext b
    have hmem : q ∈ List.range s.cells.length := List.mem_range.mpr hlt
    by_cases hq : q ∈ s.living
    · rw [if_pos hq, if_neg (fun h => h.2 hq)]
    · rw [if_neg hq, if_pos ⟨hmem, hq⟩]
  · rw [body?_eq_none_of_le (Nat.le_of_not_lt hlt)]
    rfl

/-- Settling makes no new place. -/
@[simp] theorem next_settle (s : Store) : s.settle.next = s.next := next_retireAll _ _ s

/-- Settling takes no hold away. -/
@[simp] theorem roots_settle (s : Store) : s.settle.roots = s.roots := roots_retireAll _ _ s

/-- Settling takes no living error down with it, and raises none from the dead. -/
theorem mem_living_settle (s : Store) (r : Ref) : r ∈ s.settle.living ↔ r ∈ s.living := by
  constructor
  · intro h
    refine mem_living_of_later (fun q hq _ => .inl (roots_settle s ▸ hq))
      (fun q b' hb' x hx _ => ?_) (next_settle s ▸ lt_next_of_mem_living h) h
    rw [body?_settle] at hb'
    obtain ⟨b, hb, rfl⟩ := Option.map_eq_some_iff.mp hb'
    refine .inr ⟨b, hb, ?_⟩
    split at hx
    · exact hx
    · exact Body.holds_retired_subset b x hx
  · refine fun h => living_subset (Nat.le_of_eq (next_settle s).symm)
      (fun q hq => (roots_settle s).symm ▸ hq) (fun q hq b hb => ⟨b, ?_, fun x hx => hx⟩) r h
    rw [body?_settle, hb, Option.map_some, if_pos hq]

/-- What lives stays of its pool, and what does not is of none. -/
theorem poolOf?_settle (s : Store) (r : Ref) :
    s.settle.poolOf? r = if r ∈ s.living then s.poolOf? r else none := by
  rw [poolOf?, body?_settle, poolOf?]
  cases s.body? r with
  | none => exact (ite_self none).symm
  | some b =>
    rw [Option.map_some, Option.bind_some, Option.bind_some]
    split
    · rfl
    · exact Body.pool?_retired b

/-! ### The account -/

/-- The groups that still belong to a pool. -/
def pooled (s : Store) (p : Nat) : List Ref :=
  (List.range s.next).filter fun r => s.poolOf? r = some p

/-- The groups of a pool are those that are of it. -/
theorem mem_pooled {s : Store} {p : Nat} {r : Ref} : r ∈ s.pooled p ↔ s.poolOf? r = some p := by
  rw [pooled, List.mem_filter, List.mem_range, decide_eq_true_eq]
  constructor
  · intro h
    exact h.2
  · intro h
    exact ⟨lt_next_of_poolOf? h, h⟩

/-- From one store to another, groups parted from their pools, and each pool took one buffer back
for each group that parted from it. -/
def Returned (s s' : Store) : Prop :=
  ∀ p, ∃ n, (s.pooled p).length = (s'.pooled p).length + n ∧
    s'.pool? p = (s.pool? p).map (Pool.refill n)

/-- Where nothing happens nothing comes back. -/
theorem Returned.refl (s : Store) : Returned s s :=
  fun _ => ⟨0, rfl, Option.map_id'.symm⟩

/-- What comes back in two steps comes back. -/
theorem Returned.trans {s t u : Store} (h : Returned s t) (h' : Returned t u) : Returned s u := by
  intro p
  obtain ⟨n, hn, hpool⟩ := h p
  obtain ⟨m, hm, hpool'⟩ := h' p
  refine ⟨n + m, by omega, ?_⟩
  rw [hpool', hpool, Option.map_map]
  congr 1
  funext pool
  exact (Pool.refill_add m n pool).symm

private theorem pooled_retire (r : Ref) (s : Store) (p : Nat) :
    (s.retire r).pooled p = (s.pooled p).erase r := by
  have hnodup : (s.pooled p).Nodup := List.nodup_range.filter _
  rw [hnodup.erase_eq_filter, pooled, pooled, next_retire, List.filter_filter]
  apply List.filter_congr
  intro q _
  rw [poolOf?_retire]
  by_cases heq : r = q
  · rw [if_pos heq, heq, bne_self_eq_false, Bool.false_and]
    rfl
  · have hne : (q != r) = true := bne_iff_ne.mpr (Ne.symm heq)
    rw [if_neg heq, hne, Bool.true_and]

/-- The buffer of a retired group comes back. -/
theorem returned_retire (r : Ref) (s : Store) : Returned s (s.retire r) := by
  intro p
  rw [pooled_retire, pool?_retire]
  by_cases hp : s.poolOf? r = some p
  · have hlen := List.length_erase_of_mem (mem_pooled.mpr hp)
    have hpos := List.length_pos_of_mem (mem_pooled.mpr hp)
    rw [if_pos hp]
    exact ⟨1, by omega, rfl⟩
  · rw [if_neg hp, List.erase_of_not_mem (fun h => hp (mem_pooled.mp h))]
    exact Returned.refl s p

private theorem returned_retireAll (kept rs : List Ref) (s : Store) :
    Returned s (retireAll kept rs s) := by
  induction rs generalizing s with
  | nil => exact Returned.refl s
  | cons r rs ih =>
    by_cases hr : r ∈ kept
    · rw [retireAll_cons_of_mem hr]
      exact ih s
    · rw [retireAll_cons_of_not_mem hr]
      exact (returned_retire r s).trans (ih _)

/-- The buffers of groups that do not live come back. -/
theorem returned_settle (s : Store) : Returned s s.settle := returned_retireAll _ _ s

end Store

end Mishap
