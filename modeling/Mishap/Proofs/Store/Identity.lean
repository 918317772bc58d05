import Mishap.Proofs.Store.Walk

/-!
# Errors and their rooms

The room of an error is its block and its width. Whatever is made in one action lies in one new
room: an error and the envelopes around it (`rooms_apply`). So in the store after a run an error
lies as many envelopes deep in its room as there are sources of it in its block (`nested_after`),
and that number and the block tell each error from every other (`same_after`).
-/

namespace Mishap.Store

/-- The room of each error, its block and its width. -/
def rooms (s : Store) : List (Nat × Nat) := s.cells.map fun c => (c.block, c.width)

/-- The block of an error is that of its room. -/
theorem block?_eq (s : Store) (r : Ref) : s.block? r = s.rooms[r]?.map (·.1) := by
  rw [block?, rooms, List.getElem?_map, Option.map_map]
  rfl

/-- The width of an error is that of its room. -/
theorem width?_eq (s : Store) (r : Ref) : s.width? r = s.rooms[r]?.map (·.2) := by
  rw [width?, rooms, List.getElem?_map, Option.map_map]
  rfl

private theorem length_rooms (s : Store) : s.rooms.length = s.next := List.length_map _

/-- There is a room at each place of the store. -/
theorem room?_of_lt {s : Store} {r : Ref} (h : r < s.next) : ∃ room, s.rooms[r]? = some room :=
  ⟨_, List.getElem?_eq_getElem ((length_rooms s).symm ▸ h)⟩

/-! ### What a change does to rooms -/

private theorem rooms_setBody (r : Ref) (b : Body) (s : Store) :
    (s.setBody r b).rooms = s.rooms := by
  apply List.ext_getElem?
  intro q
  rw [rooms, rooms, setBody, List.getElem?_map, List.getElem?_map, List.getElem?_modify]
  cases s.cells[q]? with
  | none => rfl
  | some c =>
    simp only [Option.map_eq_map, Option.map_some]
    split <;> rfl

private theorem rooms_add (b : Body) (s : Store) :
    (s.add b).1.rooms = s.rooms ++ [(s.next, b.width)] :=
  List.map_append

private theorem rooms_addEnvelope {s : Store} {inner : Ref} {room : Nat × Nat}
    (h : s.rooms[inner]? = some room) : (s.addEnvelope inner).1.rooms = s.rooms ++ [room] := by
  rw [rooms, List.getElem?_map] at h
  obtain ⟨c, hc, rfl⟩ := Option.map_eq_some_iff.mp h
  have hcell : s.cell? inner = some c := hc
  rw [addEnvelope, hcell]
  exact List.map_append

/-- An error and the envelopes around it lie in one room. -/
theorem rooms_envelop (levels : Nat) (b : Body) (s : Store) :
    (envelop levels (s.add b)).1.rooms =
      s.rooms ++ List.replicate (levels + 1) (s.next, b.width) := by
  induction levels with
  | zero => exact rooms_add b s
  | succ levels ih =>
    have hinner : (envelop levels (s.add b)).1.rooms[(envelop levels (s.add b)).2]? =
        some (s.next, b.width) := by
      rw [ih, (bodies_envelop levels b s).2, ← length_rooms, List.getElem?_append_right (by omega),
        List.getElem?_replicate, if_pos (by omega)]
    rw [envelop, rooms_addEnvelope hinner, ih, List.append_assoc, ← List.replicate_succ']

private theorem rooms_retire (r : Ref) (s : Store) : (s.retire r).rooms = s.rooms := by
  cases hp : s.poolOf? r with
  | none => rw [retire_of_not_pooled hp]
  | some p =>
    rw [retire_of_pooled hp]
    exact rooms_setBody r _ s

private theorem rooms_settle (s : Store) : s.settle.rooms = s.rooms := by
  unfold settle
  generalize s.living = kept
  generalize List.range s.cells.length = rs
  induction rs generalizing s with
  | nil => rfl
  | cons r rs ih =>
    rw [List.foldl_cons, ih]
    split
    · rfl
    · exact rooms_retire r s

namespace Action

variable {s : Store}

private theorem rooms_handOver_add (s : Store) (b : Body) :
    (handOver (s.add b)).rooms = s.rooms ++ List.replicate 1 (s.next, b.width) :=
  rooms_add b s

private theorem rooms_handOver_envelop (s : Store) (b : Body) (levels : Nat) :
    (handOver (envelop levels (s.add b))).rooms =
      s.rooms ++ List.replicate (made.inEnvelopes s b levels).length (s.next, b.width) := by
  rw [made.inEnvelopes, List.length_cons, List.length_map, List.length_range]
  exact rooms_envelop levels b s

private theorem rooms_act (hclean : s.PoolsClean) (a : Action) :
    ∃ width, (a.act s).rooms = s.rooms ++ List.replicate (a.made s).length (s.next, width) := by
  have hkept : s.rooms = s.rooms ++ List.replicate 0 (s.next, 0) := (List.append_nil _).symm
  cases a with
  | leaf message levels => exact ⟨_, rooms_handOver_envelop s _ levels⟩
  | decorate message frames levels => exact ⟨_, rooms_handOver_envelop s _ levels⟩
  | wrap cause message frames levels => exact ⟨_, rooms_handOver_envelop s _ levels⟩
  | system message => exact ⟨_, rooms_handOver_add s _⟩
  | veil inner => exact ⟨_, rooms_handOver_add s _⟩
  | link message source => exact ⟨_, rooms_handOver_add s _⟩
  | join parts => exact ⟨_, rooms_handOver_add s _⟩
  | addGroup => exact ⟨_, rooms_handOver_add s _⟩
  | takeGroup p =>
    have hact : act (takeGroup p) s =
        handOver ((s.modifyPool p Pool.lend).add (.group ⟨[], some p⟩)) := by
      change handOver ((s.takeGroup p).1, (s.takeGroup p).2.1) = _
      rw [takeGroup_eq hclean]
      rfl
    rw [hact]
    exact ⟨_, rooms_handOver_add (s.modifyPool p Pool.lend) _⟩
  | edit r e =>
    refine ⟨0, Eq.trans ?_ hkept⟩
    change (s.change r e.apply).1.rooms = s.rooms
    unfold change
    split
    · exact rooms_setBody r _ s
    · rfl
  | append r member? =>
    refine ⟨0, Eq.trans ?_ hkept⟩
    cases member? with
    | none => rfl
    | some member =>
      change (s.append r member).rooms = s.rooms
      unfold Store.append
      split
      · exact rooms_setBody r _ s
      · rfl
  | clear r =>
    refine ⟨0, Eq.trans ?_ hkept⟩
    rw [act]
    split
    · exact rooms_setBody r _ s
    · rfl
  | release r => exact ⟨0, (rooms_retire r s).trans hkept⟩
  | joinGroup r =>
    have hact : act (joinGroup r) s = ((s.joinGroup r).map handOver).getD s := rfl
    rw [hact, Store.joinGroup, made]
    cases s.members r with
    | nil => exact ⟨0, hkept⟩
    | cons member members => exact ⟨_, rooms_handOver_add s _⟩
  | _ => exact ⟨0, hkept⟩

/-- Whatever an action makes lies in one new room. -/
theorem rooms_apply (hs : s.Sound) (a : Action) :
    ∃ width, (a.apply s).1.rooms =
      s.rooms ++ List.replicate (a.made s).length (s.next, width) := by
  rw [apply_eq_settle hs, rooms_settle]
  exact rooms_act hs.clean a

end Action

/-! ### The rooms after a run -/

/-- An error is the first in its room and no envelope, or it is an envelope around the one before it
there. -/
theorem room_after {h : History} (hp : Possible h) {r : Ref} {room : Nat × Nat}
    (hr : (after h).rooms[r]? = some room) :
    (r = room.1 ∧ ∀ p, (after h).body? r ≠ some (.envelope p)) ∨
      ∃ p, r = p + 1 ∧ (after h).body? r = some (.envelope p) ∧
        (after h).rooms[p]? = some room := by
  induction h generalizing r room with
  | nil => exact absurd hr nofun
  | cons a h ih =>
    have hs := sound_after hp.1
    obtain ⟨width, hrooms⟩ := Action.rooms_apply hs a
    have hlength := length_rooms (after h)
    rw [after] at hr ⊢
    rw [hrooms] at hr ⊢
    by_cases hlt : r < (after h).next
    · have hold : r < (after h).rooms.length := hlength.symm ▸ hlt
      rw [List.getElem?_append_left hold] at hr
      rcases ih hp.1 hr with ⟨hfirst, hbare⟩ | ⟨p, rfl, hb, hroom⟩
      · refine .inl ⟨hfirst, fun p hb => ?_⟩
        obtain ⟨b, hb₀⟩ := body?_of_lt hlt
        obtain ⟨b', hb', hcont⟩ := continues_cons hp hb₀
        cases hb.symm.trans hb'
        cases hcont
        exact hbare p hb₀
      · obtain ⟨b', hb', hcont⟩ := continues_cons hp hb
        cases hcont
        refine .inr ⟨p, rfl, hb', ?_⟩
        rw [List.getElem?_append_left (Nat.lt_of_succ_lt hold), hroom]
    · obtain ⟨i, rfl⟩ := Nat.exists_eq_add_of_le (Nat.le_of_not_lt hlt)
      rw [List.getElem?_append_right (by omega), List.getElem?_replicate] at hr
      obtain ⟨hi, hroom⟩ := Option.ite_none_right_eq_some.mp hr
      cases hroom
      cases i with
      | zero =>
        refine .inl ⟨rfl, fun p hb => ?_⟩
        rw [Action.body?_apply_new hs] at hb
        exact Action.made_zero_ne_envelope hb
      | succ i =>
        obtain ⟨b, hb⟩ : ∃ b, (a.made (after h))[i + 1]? = some b :=
          ⟨_, List.getElem?_eq_getElem (by omega)⟩
        refine .inr ⟨(after h).next + i, rfl, ?_, ?_⟩
        · rw [Action.body?_apply_new hs, hb, Action.made_succ hb]
        · rw [List.getElem?_append_right (by omega), List.getElem?_replicate, if_pos (by omega)]

/-- No error lies before the first one in its room. -/
theorem block_le {h : History} (hp : Possible h) {r : Ref} {room : Nat × Nat}
    (hr : (after h).rooms[r]? = some room) : room.1 ≤ r := by
  induction r with
  | zero =>
    rcases room_after hp hr with ⟨hfirst, -⟩ | ⟨p, hlater, -⟩
    · exact Nat.le_of_eq hfirst.symm
    · exact absurd hlater nofun
  | succ r ih =>
    rcases room_after hp hr with ⟨hfirst, -⟩ | ⟨p, hlater, -, hroom⟩
    · exact Nat.le_of_eq hfirst.symm
    · cases hlater
      exact Nat.le_succ_of_le (ih hroom)

private theorem nestedFrom_after {h : History} (hp : Possible h) {room : Nat × Nat} (fuel : Nat)
    {r : Ref} (hfuel : r < fuel) (hr : (after h).rooms[r]? = some room) :
    (after h).nestedFrom (some room.1) fuel r = r - room.1 := by
  -- As many sources of an error lie in its block as there are places from the first one there to
  -- its own.
  induction fuel generalizing r with
  | zero => exact absurd hfuel (Nat.not_lt_zero r)
  | succ fuel ih =>
    rw [nestedFrom]
    rcases room_after hp hr with ⟨rfl, -⟩ | ⟨p, rfl, hb, hroom⟩
    · -- The source of the first one is older than the block.
      cases hsource : (after h).source? room.1 with
      | none => exact (Nat.sub_self _).symm
      | some q =>
        have hlt := (descending_after hp).older _ q (mem_leads_of_source? hsource)
        have hother : (after h).block? q ≠ some room.1 := by
          rw [block?_eq]
          intro heq
          obtain ⟨room', hroom', hblock⟩ := Option.map_eq_some_iff.mp heq
          have hle := block_le hp hroom'
          rw [hblock] at hle
          exact absurd hlt (Nat.not_lt.mpr hle)
        simp only [if_neg hother, Nat.sub_self]
    · have hsource : (after h).source? (p + 1) = some p := by
        rw [source?, hb]
        rfl
      have hblock : (after h).block? p = some room.1 := by
        rw [block?_eq, hroom]
        rfl
      have hle := block_le hp hroom
      simp only [hsource, if_pos hblock, ih (Nat.lt_of_succ_lt_succ hfuel) hroom]
      omega

private theorem nested_after {h : History} (hp : Possible h) {r : Ref} {room : Nat × Nat}
    (hr : (after h).rooms[r]? = some room) : (after h).nested r = r - room.1 := by
  have hblock : (after h).block? r = some room.1 := by
    rw [block?_eq, hr]
    rfl
  rw [nested, hblock]
  exact nestedFrom_after hp (r + 1) (Nat.lt_succ_self r) hr

/-- The sources in a block are counted one by one. -/
theorem nested_eq {h : History} (hp : Possible h) {r : Ref} (hr : r < (after h).next) :
    (after h).nested r =
      match (after h).source? r with
      | none => 0
      | some q =>
        if (after h).block? q = (after h).block? r then (after h).nested q + 1 else 0 := by
  obtain ⟨room, hroom⟩ := room?_of_lt hr
  have hblock : (after h).block? r = some room.1 := by
    rw [block?_eq, hroom]
    rfl
  have hcount := nested_after hp hroom
  rw [nested, hblock, nestedFrom] at hcount ⊢
  cases hsource : (after h).source? r with
  | none => rfl
  | some q =>
    have hlt := (descending_after hp).older _ q (mem_leads_of_source? hsource)
    obtain ⟨room', hroom'⟩ := room?_of_lt (Nat.lt_trans hlt hr)
    simp only [block?_eq, hroom', Option.map_some]
    split
    · next heq =>
      rw [nested_after hp hroom', ← Option.some.inj heq, nestedFrom_after hp r hlt hroom']
    · rfl

/-- Two places hold the same error only if they are one. -/
theorem same_after {h : History} (hp : Possible h) {a b : Ref} (ha : a < (after h).next) :
    (after h).same a b = true ↔ a = b := by
  constructor
  · intro hsame
    rw [same, Bool.and_eq_true, Bool.and_eq_true, beq_iff_eq, beq_iff_eq, beq_iff_eq] at hsame
    obtain ⟨⟨hblock, -⟩, hnested⟩ := hsame
    obtain ⟨room, hroom⟩ := room?_of_lt ha
    rw [block?_eq, block?_eq, hroom, Option.map_some] at hblock
    obtain ⟨room', hroom', heq⟩ := Option.map_eq_some_iff.mp hblock.symm
    rw [nested_after hp hroom, nested_after hp hroom', heq] at hnested
    have hle := block_le hp hroom
    have hle' := block_le hp hroom'
    rw [heq] at hle'
    calc
      a = a - room.1 + room.1 := (Nat.sub_add_cancel hle).symm
      _ = b - room.1 + room.1 := by rw [hnested]
      _ = b := Nat.sub_add_cancel hle'
  · rintro rfl
    simp [same]

end Mishap.Store
