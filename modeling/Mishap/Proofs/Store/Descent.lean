import Mishap.Proofs.Store.Contents

/-!
# From an error to older ones

A walk over a chain goes from a joined error to its parts and from any other error to its source.
In the store after a run it comes to older errors only (`descending_after`), whatever groups
contain: each of them was there before what leads to it was made.
-/

namespace Mishap

namespace Body

/-- The errors that one comes to next: the parts of a joined error, the source of any other. -/
def leads : Body → List Ref
  | joined parts => parts
  | b => b.source?.toList

/-- What one comes to is held, unless it is the source of what is hidden. -/
theorem mem_holds_of_mem_leads {b : Body} {q : Ref} (h : q ∈ b.leads) :
    q ∈ b.holds ∨ ∃ inner, b = .veiled inner (some q) := by
  cases b with
  | veiled inner source? => exact .inr ⟨inner, congrArg _ (Option.mem_toList.mp h)⟩
  | leaf m => exact absurd h List.not_mem_nil
  | system m => exact absurd h List.not_mem_nil
  | group g => exact absurd h List.not_mem_nil
  | _ => exact .inl h

/-- An error that goes on leads where it led. -/
theorem Continues.leads_eq {b b' : Body} (h : Continues b b') :
    b'.leads = b.leads ∧ b'.source? = b.source? := by
  cases h with
  | same => exact ⟨rfl, rfl⟩
  | edited message cause trace => exact ⟨congrArg Option.toList cause, cause⟩
  | regrouped g g' => exact ⟨rfl, rfl⟩

end Body

namespace Store

/-- The errors that one comes to next from a place. -/
def leads (s : Store) (r : Ref) : List Ref := ((s.body? r).map Body.leads).getD []

/-- What an error leads to hangs on the error alone. -/
theorem leads_of_body? {s : Store} {r : Ref} {b : Body} (h : s.body? r = some b) :
    s.leads r = b.leads := by
  rw [leads, h]
  rfl

/-- There is an error at each place of the store. -/
theorem body?_of_lt {s : Store} {r : Ref} (h : r < s.next) : ∃ b, s.body? r = some b := by
  have hlt : r < s.cells.length := h
  exact ⟨_, by rw [body?, cell?, List.getElem?_eq_getElem hlt, Option.map_some]⟩

/-- From a joined error one comes to its parts, from any other to its source. -/
theorem leads_eq (s : Store) (r : Ref) :
    s.leads r =
      match s.parts? r with
      | some parts => parts
      | none => (s.source? r).toList := by
  rw [leads, parts?, source?]
  cases s.body? r with
  | none => rfl
  | some b => cases b <;> rfl

/-- An error leads to its source. -/
theorem mem_leads_of_source? {s : Store} {r q : Ref} (h : s.source? r = some q) :
    q ∈ s.leads r := by
  obtain ⟨b, hb, hq⟩ := Option.bind_eq_some_iff.mp h
  rw [leads_of_body? hb]
  cases b with
  | joined parts => exact absurd hq nofun
  | _ => exact Option.mem_toList.mpr hq

/-! ### What is made -/

namespace Action

variable {s : Store} {a : Action}

/-- Whatever is made after the first is an envelope around what was made before it. -/
theorem made_succ {i : Nat} {b : Body} (h : (a.made s)[i + 1]? = some b) :
    b = .envelope (s.next + i) := by
  have henvelop : ∀ {b' levels}, (made.inEnvelopes s b' levels)[i + 1]? = some b →
      b = .envelope (s.next + i) := by
    intro b' levels hget
    rw [made.inEnvelopes, List.getElem?_cons_succ, List.getElem?_map] at hget
    obtain ⟨level, hlevel, rfl⟩ := Option.map_eq_some_iff.mp hget
    obtain ⟨-, rfl⟩ := List.getElem?_eq_some_iff.mp hlevel
    rw [List.getElem_range]
  cases a with
  | leaf message levels => exact henvelop h
  | decorate message frames levels => exact henvelop h
  | wrap cause message frames levels => exact henvelop h
  | joinGroup r =>
    rw [made] at h
    split at h <;> cases h
  | _ => cases h

/-- The first that is made is no envelope. -/
theorem made_zero_ne_envelope {inner : Ref} : (a.made s)[0]? ≠ some (.envelope inner) := by
  intro h
  cases a with
  | joinGroup r =>
    rw [made] at h
    split at h <;> cases h
  | _ => cases h

/-- An error that hides another is made with the source of what it hides. -/
theorem veiled_made {i : Nat} {inner : Ref} {source? : Option Ref}
    (h : (a.made s)[i]? = some (.veiled inner source?)) :
    a = veil inner ∧ source? = s.source? inner := by
  cases i with
  | succ i => exact absurd (made_succ h) nofun
  | zero =>
    cases a with
    | veil inner' =>
      cases h
      exact ⟨rfl, rfl⟩
    | joinGroup r =>
      rw [made] at h
      split at h <;> cases h
    | _ => cases h

/-- What is made leads to what was there before it. -/
theorem lt_of_mem_leads_made (hs : s.Sound) (ha : s.Allowed a)
    (hd : ∀ r, ∀ q ∈ s.leads r, q < r) {i : Nat} {b : Body} (hb : (a.made s)[i]? = some b)
    {q : Ref} (hq : q ∈ b.leads) : q < s.next + i := by
  rcases Body.mem_holds_of_mem_leads hq with hheld | ⟨inner, rfl⟩
  · rcases holds_made hs ha hb hheld with hlive | hnew
    · exact Nat.lt_add_right i (lt_next_of_mem_living hlive)
    · exact hnew.2
  · obtain ⟨rfl, hsource⟩ := veiled_made hb
    have hlead := hd inner q (mem_leads_of_source? hsource.symm)
    have hlive := lt_next_of_mem_living (ha.1 inner (List.mem_singleton.mpr rfl))
    exact Nat.lt_add_right i (Nat.lt_trans hlead hlive)

end Action

/-! ### Older errors -/

/-- One comes to older errors only, and what hides an error has the source which that has. -/
structure Descending (s : Store) : Prop where
  older : ∀ r, ∀ q ∈ s.leads r, q < r
  veiled : ∀ r inner source?, s.body? r = some (.veiled inner source?) →
    source? = s.source? inner

/-- An action goes on with the error at each old place. -/
theorem continues_cons {a : Action} {h : History} (hp : Possible (a :: h)) {q : Ref} {b : Body}
    (hb : (after h).body? q = some b) :
    ∃ b', (after (a :: h)).body? q = some b' ∧ b.Continues b' := by
  have hlater : Possible ([a] ++ h) := hp
  exact continues_after hlater hb

/-- An old place leads where it led. -/
theorem leads_cons {a : Action} {h : History} (hp : Possible (a :: h)) {r : Ref}
    (hr : r < (after h).next) :
    (after (a :: h)).leads r = (after h).leads r ∧
      (after (a :: h)).source? r = (after h).source? r := by
  obtain ⟨b, hb⟩ := body?_of_lt hr
  obtain ⟨b', hb', hcont⟩ := continues_cons hp hb
  rw [leads_of_body? hb, leads_of_body? hb', source?, source?, hb, hb']
  exact hcont.leads_eq

/-- In every world errors lead to older ones. -/
theorem descending_after {h : History} (hp : Possible h) : (after h).Descending := by
  induction h with
  | nil =>
    exact ⟨fun r q hq => absurd hq List.not_mem_nil, fun r inner source? hb => absurd hb nofun⟩
  | cons a h ih =>
    have hs := sound_after hp.1
    have hd := ih hp.1
    refine ⟨fun r q hq => ?_, fun r inner source? hb => ?_⟩
    · by_cases hr : r < (after h).next
      · rw [(leads_cons hp hr).1] at hq
        exact hd.older r q hq
      · obtain ⟨i, rfl⟩ := Nat.exists_eq_add_of_le (Nat.le_of_not_lt hr)
        cases hb : (a.made (after h))[i]? with
        | none =>
          rw [leads, after, Action.body?_apply_new hs, hb] at hq
          exact absurd hq List.not_mem_nil
        | some b =>
          rw [after, leads_of_body? ((Action.body?_apply_new hs a i).trans hb)] at hq
          exact Action.lt_of_mem_leads_made hs hp.2 hd.older hb hq
    · -- What is hidden was there before what hides it, so its source is the same after the action.
      have hinner : inner < (after h).next ∧ source? = (after h).source? inner := by
        by_cases hr : r < (after h).next
        · rw [after, Action.body?_apply hs a hr] at hb
          obtain ⟨b₀, hb₀, htouch⟩ := Option.map_eq_some_iff.mp hb
          have hcont : b₀.Continues (.veiled inner source?) := by
            rw [← htouch]
            split
            · exact .touch a r b₀
            · exact (Body.Continues.touch a r b₀).trans (.retired _)
          cases hcont
          exact ⟨hs.held_lt r _ hb₀ inner (List.mem_singleton.mpr rfl), hd.veiled r inner _ hb₀⟩
        · obtain ⟨i, rfl⟩ := Nat.exists_eq_add_of_le (Nat.le_of_not_lt hr)
          rw [after, Action.body?_apply_new hs] at hb
          obtain ⟨rfl, hsource⟩ := Action.veiled_made hb
          exact ⟨lt_next_of_mem_living (hp.2.1 inner (List.mem_singleton.mpr rfl)), hsource⟩
      rw [hinner.2, (leads_cons hp hinner.1).2]

end Store

end Mishap
