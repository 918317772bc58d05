import Mishap.Proofs.Store.Change

/-!
# Sound stores

In a sound store whatever is referred to is there, and only the living still have a buffer to give
back. What an action touches and makes holds nothing but the living and what is new, so nothing is
raised from the dead (`mem_living_of_act`), and an action that gives up no hold leaves everything
alive (`living_subset_act`).
-/

namespace Mishap.Store

/-- What is referred to is there, only the living still have a buffer to give back, and the pools
are clean. -/
structure Sound (s : Store) : Prop where
  held_lt : ∀ q b, s.body? q = some b → ∀ r ∈ b.holds, r < s.next
  settled : ∀ r p, s.poolOf? r = some p → r ∈ s.living
  clean : s.PoolsClean

/-- An error that a living one holds lives. -/
theorem Sound.mem_living {s : Store} (h : s.Sound) {q r : Ref} {b : Body} (hq : q ∈ s.living)
    (hb : s.body? q = some b) (hr : r ∈ b.holds) : r ∈ s.living :=
  mem_living_of_held (h.held_lt q b hb r hr) (.inr ⟨q, b, hq, hb, hr⟩)

/-- A member of a group is held by it. -/
theorem mem_members {s : Store} {r m : Ref} (h : m ∈ s.members r) :
    ∃ b, s.body? r = some b ∧ m ∈ b.holds := by
  unfold members group? at h
  split at h
  · next g hb => exact ⟨_, hb, h⟩
  · exact absurd h List.not_mem_nil

/-- The empty store is sound. -/
theorem sound_empty : empty.Sound := by
  refine ⟨fun q b hb => ?_, fun r p hp => ?_, fun p pool hp => ?_⟩
  · exact absurd hb nofun
  · exact absurd hp nofun
  · exact absurd hp nofun

namespace Action

/-- An action that may leave errors without a holder. -/
def settles : Action → Bool
  | clear _ | release _ | letGo _ => true
  | _ => false

variable {s : Store} {a : Action}

/-! ### Touched places -/

/-- No action but a release changes the pool of an error. -/
theorem pool?_touch {q : Ref} (h : a ≠ release q) (b : Body) :
    (a.touch q b).pool? = b.pool? := by
  unfold touch
  split
  · split
    · exact Body.pool?_edited _ b
    · rfl
  · split
    · exact Body.pool?_withMembers _ b
    · rfl
  · split
    · exact Body.pool?_withMembers _ b
    · rfl
  · split
    · next heq => exact absurd (congrArg release heq) h
    · rfl
  · rfl

private theorem holds_withMembers_append {b : Body} {ms : List Ref} {r : Ref} :
    (r ∈ b.holds → r ∈ (b.withMembers (· ++ ms)).holds) ∧
      (r ∈ (b.withMembers (· ++ ms)).holds → r ∈ b.holds ∨ r ∈ ms) := by
  cases b with
  | group g => exact ⟨fun h => List.mem_append_left ms h, fun h => List.mem_append.mp h⟩
  | _ => exact ⟨fun h => h, fun h => .inl h⟩

private theorem holds_withMembers_nil {b : Body} {r : Ref}
    (h : r ∈ (b.withMembers fun _ => []).holds) : r ∈ b.holds := by
  cases b with
  | group g => exact absurd h List.not_mem_nil
  | _ => exact h

/-- A touched error holds at most what it held and what the action was given. -/
theorem holds_touch {q : Ref} {b : Body} {r : Ref} (h : r ∈ (a.touch q b).holds) :
    r ∈ b.holds ∨ r ∈ a.refs := by
  unfold touch at h
  split at h
  · split at h
    · exact .inl (Body.holds_edited _ b ▸ h)
    · exact .inl h
  · split at h
    · exact (holds_withMembers_append.2 h).imp_right fun hr => List.mem_cons_of_mem _ hr
    · exact .inl h
  · split at h
    · exact .inl (holds_withMembers_nil h)
    · exact .inl h
  · split at h
    · exact .inl (Body.holds_retired_subset b r h)
    · exact .inl h
  · exact .inl h

/-- What an action touches holds all it held, unless the action can leave errors without a
holder. -/
theorem holds_touch_of_not_settles (h : a.settles = false) {q : Ref} {b : Body} {r : Ref}
    (hr : r ∈ b.holds) : r ∈ (a.touch q b).holds := by
  unfold touch
  split
  · split
    · exact (Body.holds_edited _ b).symm ▸ hr
    · exact hr
  · split
    · exact holds_withMembers_append.1 hr
    · exact hr
  · exact absurd h nofun
  · exact absurd h nofun
  · exact hr

/-- What such an action touches holds nothing else than before. -/
theorem holds_touch_of_settles (h : a.settles = true) {q : Ref} {b : Body} {r : Ref}
    (hr : r ∈ (a.touch q b).holds) : r ∈ b.holds := by
  unfold touch at hr
  split at hr
  · exact absurd h nofun
  · exact absurd h nofun
  · split at hr
    · exact holds_withMembers_nil hr
    · exact hr
  · split at hr
    · exact Body.holds_retired_subset b r hr
    · exact hr
  · exact hr

private theorem holds_freshOver {cause : Ref} {message : String} {frames : List Frame} {r : Ref}
    (h : r ∈ (Body.decorated (s.freshOver cause message frames)).holds) : r = cause := by
  have hcause : (s.freshOver cause message frames).cause? = some cause := by
    unfold freshOver
    split <;> rfl
  rw [Body.holds, hcause] at h
  exact List.mem_singleton.mp h

/-- What is made holds living errors, and new ones that were made before it. -/
theorem holds_made (hs : s.Sound) (ha : s.Allowed a) {i : Nat} {b : Body}
    (hb : (a.made s)[i]? = some b) {r : Ref} (hr : r ∈ b.holds) :
    r ∈ s.living ∨ (s.next ≤ r ∧ r < s.next + i) := by
  have henvelop : ∀ {b' levels}, (made.inEnvelopes s b' levels)[i]? = some b →
      (∀ r ∈ b'.holds, r ∈ a.refs) → r ∈ s.living ∨ (s.next ≤ r ∧ r < s.next + i) := by
    intro b' levels hget hheld
    cases i with
    | zero =>
      cases hget
      exact .inl (ha.1 r (hheld r hr))
    | succ i =>
      rw [made.inEnvelopes, List.getElem?_cons_succ, List.getElem?_map] at hget
      obtain ⟨level, hlevel, rfl⟩ := Option.map_eq_some_iff.mp hget
      obtain ⟨hlt, rfl⟩ := List.getElem?_eq_some_iff.mp hlevel
      rw [Body.holds, List.mem_singleton, List.getElem_range] at hr
      subst hr
      exact .inr ⟨Nat.le_add_right _ _, Nat.lt_succ_self _⟩
  have hmake : ∀ {b'}, [b'][i]? = some b → (∀ r ∈ b'.holds, r ∈ a.refs) → r ∈ s.living := by
    intro b' hget hheld
    cases List.mem_singleton.mp (List.mem_of_getElem? hget)
    exact ha.1 r (hheld r hr)
  cases a with
  | leaf message levels => exact henvelop hb fun _ h => absurd h List.not_mem_nil
  | decorate message frames levels => exact henvelop hb fun _ h => absurd h List.not_mem_nil
  | wrap cause message frames levels =>
    exact henvelop hb fun _ h => List.mem_singleton.mpr (holds_freshOver h)
  | system message => exact .inl (hmake hb fun _ h => absurd h List.not_mem_nil)
  | veil inner => exact .inl (hmake hb fun _ h => h)
  | link message source => exact .inl (hmake hb fun _ h => h)
  | join parts => exact .inl (hmake hb fun _ h => h)
  | addGroup => exact .inl (hmake hb fun _ h => absurd h List.not_mem_nil)
  | takeGroup p => exact .inl (hmake hb fun _ h => absurd h List.not_mem_nil)
  | joinGroup g =>
    rw [made] at hb
    split at hb
    · exact absurd (List.mem_of_getElem? hb) List.not_mem_nil
    · cases List.mem_singleton.mp (List.mem_of_getElem? hb)
      obtain ⟨b, hb, hr⟩ := mem_members hr
      exact .inl (hs.mem_living (ha.1 g (List.mem_singleton.mpr rfl)) hb hr)
  | _ => exact absurd (List.mem_of_getElem? hb) List.not_mem_nil

/-! ### The living -/

private theorem newest_spec (bs : List Body) : ∀ r ∈ newest s bs, s.next ≤ r := by
  intro r hr
  unfold newest at hr
  split at hr
  · exact absurd hr List.not_mem_nil
  · cases List.mem_singleton.mp hr
    exact Nat.le_add_right _ _

private theorem rootsAfter_old {r : Ref} (h : r ∈ a.rootsAfter s) (hlt : r < s.next) :
    r ∈ s.roots ∨ r ∈ a.refs := by
  unfold rootsAfter at h
  split at h
  · exact (List.mem_cons.mp h).symm.imp_right List.mem_singleton.mpr
  · exact .inl (List.mem_of_mem_erase h)
  · rcases List.mem_append.mp h with hnew | hold
    · exact absurd hlt (Nat.not_lt.mpr (newest_spec _ r hnew))
    · exact .inl hold

private theorem roots_subset_rootsAfter (h : a.settles = false) :
    ∀ r ∈ s.roots, r ∈ a.rootsAfter s := by
  intro r hr
  unfold rootsAfter
  split
  · exact List.mem_cons_of_mem _ hr
  · exact absurd h nofun
  · exact List.mem_append_right _ hr

/-- No action raises anything from the dead. -/
theorem mem_living_of_act (hs : s.Sound) (ha : s.Allowed a) {r : Ref} (hlt : r < s.next)
    (h : r ∈ (a.act s).living) : r ∈ s.living := by
  refine mem_living_of_later (fun q hq hqlt => ?_) (fun q b' hb' x hx hxlt => ?_) hlt h
  · exact (rootsAfter_old (roots_act hs.clean a ▸ hq) hqlt).imp_right (ha.1 q)
  · by_cases hq : q < s.next
    · rw [body?_act hs.clean a hq] at hb'
      obtain ⟨b, hb, rfl⟩ := Option.map_eq_some_iff.mp hb'
      rcases holds_touch hx with hold | hgiven
      · exact .inr ⟨b, hb, hold⟩
      · exact .inl (ha.1 x hgiven)
    · obtain ⟨i, rfl⟩ := Nat.exists_eq_add_of_le (Nat.le_of_not_lt hq)
      rw [body?_act_new hs.clean] at hb'
      rcases holds_made hs ha hb' hx with hold | hnew
      · exact .inl hold
      · exact absurd hxlt (Nat.not_lt.mpr hnew.1)

/-- An action that settles nothing leaves everything alive. -/
theorem living_subset_act (hs : s.Sound) (h : a.settles = false) :
    ∀ r ∈ s.living, r ∈ (a.act s).living := by
  refine living_subset ?_ (fun r hr => ?_) (fun q hq b hb => ?_)
  · rw [next_act hs.clean]
    exact Nat.le_add_right _ _
  · rw [roots_act hs.clean]
    exact roots_subset_rootsAfter h r hr
  · rw [body?_act hs.clean a (lt_next_of_body? hb), hb]
    exact ⟨_, rfl, fun r hr => holds_touch_of_not_settles h hr⟩

end Action

end Mishap.Store
