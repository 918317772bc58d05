import Mishap.Proofs.Store.Grounded

/-!
# Groups that come to contain themselves

A new error includes the texts of older ones, and nothing that is done to an old one makes its text
include more, but that a group is given a member. So a group contains itself from the moment on at
which it, or a group that it contains, is given a member whose text includes that group's own
(`grounded_cons_iff`). Below an error inclusion ends unless there is such a group
(`isSome_text?_iff`).
-/

namespace Mishap

namespace Body

/-- An edited error shows what it showed. -/
@[simp] theorem shows_edited (e : Decorated.Edit) (b : Body) : (b.edited e).shows = b.shows := by
  cases b with
  | decorated d => exact holds_edited e (.decorated d)
  | _ => rfl

private theorem shows_retired_subset (b : Body) : ∀ q ∈ b.retired.shows, q ∈ b.shows := by
  unfold retired
  split
  · exact fun q hq => absurd hq List.not_mem_nil
  · exact fun q hq => hq

end Body

namespace Store

/-- A group contains itself: its text comes to include itself. -/
def Circular (s : Store) (r : Ref) : Prop :=
  (∃ g, s.body? r = some (.group g)) ∧ s.Includes r r

/-- An action adds to a group the group itself, or an error whose text includes that of the
group. -/
def Closes (s : Store) : Action → Prop
  | .append r (some m) => (∃ g, s.body? r = some (.group g)) ∧ (m = r ∨ s.Includes m r)
  | _ => False

private theorem grounded_iff (s : Store) : s.Grounded ↔ ∀ r, ¬ s.Circular r := by
  constructor
  · rintro hg r ⟨⟨g, hb⟩, hcircle⟩
    exact hg r g hb hcircle
  · exact fun hnone r g hb hcircle => hnone r ⟨⟨g, hb⟩, hcircle⟩

/-- What is touched includes no more than before, but that a group is given a member. -/
theorem Action.mem_shows_touch {a : Action} {q m : Ref} {b : Body}
    (h : m ∈ (a.touch q b).shows) :
    m ∈ b.shows ∨ (∃ g, b = .group g) ∧ a = .append q (some m) := by
  cases a with
  | edit r e =>
    rw [touch] at h
    split at h
    · exact .inl (Body.shows_edited e b ▸ h)
    · exact .inl h
  | append r member? =>
    rw [touch] at h
    split at h
    · next heq =>
      subst heq
      cases b with
      | group g =>
        rcases List.mem_append.mp h with hold | hnew
        · exact .inl hold
        · rw [Option.mem_toList] at hnew
          exact .inr ⟨⟨g, rfl⟩, by rw [hnew]⟩
      | _ => exact .inl h
    · exact .inl h
  | clear r =>
    rw [touch] at h
    split at h
    · cases b with
      | group g => exact absurd h List.not_mem_nil
      | _ => exact .inl h
    · exact .inl h
  | release r =>
    rw [touch] at h
    split at h
    · exact .inl (Body.shows_retired_subset b m h)
    · exact .inl h
  | _ => exact .inl h

section

variable {a : Action} {h : History} {r q m : Ref}

/-- After an action an old error includes what it included, and what it is given as a member; a new
one includes older ones. -/
theorem mem_shows_cons (hp : Possible (a :: h)) (hm : m ∈ (after (a :: h)).shows q) :
    m ∈ (after h).shows q ∨
      (∃ g, (after h).body? q = some (.group g)) ∧ a = .append q (some m) ∨
      (after h).next ≤ q ∧ m < q := by
  have hs := sound_after hp.1
  obtain ⟨b, hb, hmem⟩ := exists_body?_of_mem_shows hm
  by_cases hq : q < (after h).next
  · rw [after, Action.body?_apply hs a hq] at hb
    obtain ⟨b₀, hb₀, rfl⟩ := Option.map_eq_some_iff.mp hb
    have htouched : m ∈ (a.touch q b₀).shows := by
      split at hmem
      · exact hmem
      · exact Body.shows_retired_subset _ m hmem
    rcases Action.mem_shows_touch htouched with hold | ⟨⟨g, rfl⟩, hadded⟩
    · exact .inl (shows_of_body? hb₀ ▸ hold)
    · exact .inr (.inl ⟨⟨g, hb₀⟩, hadded⟩)
  · obtain ⟨i, rfl⟩ := Nat.exists_eq_add_of_le (Nat.le_of_not_lt hq)
    rw [after, Action.body?_apply_new hs] at hb
    refine .inr (.inr ⟨Nat.le_add_right _ _, ?_⟩)
    rcases Action.holds_made hs hp.2 hb (Body.holds_of_mem_shows hmem) with hlive | hnew
    · exact Nat.lt_add_right i (lt_next_of_mem_living hlive)
    · exact hnew.2

/-- From an old error inclusion goes to old ones: as before the action, or by way of the member that
a group was given. -/
theorem includes_cons (hp : Possible (a :: h)) (hr : r < (after h).next)
    (hpath : (after (a :: h)).Includes r q) :
    q < (after h).next ∧ ((after h).Includes r q ∨
      ∃ t m, a = .append t (some m) ∧ (∃ g, (after h).body? t = some (.group g)) ∧
        (r = t ∨ (after h).Includes r t) ∧ (m = q ∨ (after h).Includes m q)) := by
  have hs := sound_after hp.1
  have hstep : ∀ {p q}, p < (after h).next → q ∈ (after (a :: h)).shows p →
      q < (after h).next ∧ (q ∈ (after h).shows p ∨
        a = .append p (some q) ∧ ∃ g, (after h).body? p = some (.group g)) := by
    intro p q hlt hq
    rcases mem_shows_cons hp hq with hold | ⟨hgroup, hadded⟩ | ⟨hnew, -⟩
    · exact ⟨(lt_next_of_mem_shows hs hold).2, .inl hold⟩
    · have hgiven : q ∈ a.refs := by simp [hadded, Action.refs]
      exact ⟨lt_next_of_mem_living (hp.2.1 q hgiven), .inr ⟨hadded, hgroup⟩⟩
    · exact absurd hlt (Nat.not_lt.mpr hnew)
  induction hpath with
  | single hq =>
    obtain ⟨hlt, hold | ⟨hadded, hgroup⟩⟩ := hstep hr hq
    · exact ⟨hlt, .inl (.single hold)⟩
    · exact ⟨hlt, .inr ⟨_, _, hadded, hgroup, .inl rfl, .inl rfl⟩⟩
  | @tail p q _ hq ih =>
    obtain ⟨hplt, hrp⟩ := ih
    obtain ⟨hlt, hold | ⟨hadded, hgroup⟩⟩ := hstep hplt hq
    · refine ⟨hlt, ?_⟩
      rcases hrp with hrp | ⟨t, m, hadded, hgroup, hrt, rfl | hmp⟩
      · exact .inl (.tail hrp hold)
      · exact .inr ⟨t, m, hadded, hgroup, hrt, .inr (.single hold)⟩
      · exact .inr ⟨t, m, hadded, hgroup, hrt, .inr (.tail hmp hold)⟩
    · refine ⟨hlt, .inr ⟨p, q, hadded, hgroup, ?_, .inl rfl⟩⟩
      -- However one came to the group, one came to it before the action.
      rcases hrp with hrp | ⟨t, m, hadded', -, hrt, -⟩
      · exact .inr hrp
      · cases hadded.symm.trans hadded'
        exact hrt

/-- From a new error inclusion goes to older ones. -/
theorem lt_of_includes_cons (hp : Possible (a :: h)) (hr : (after h).next ≤ r)
    (hpath : (after (a :: h)).Includes r q) : q < r := by
  have hstep : ∀ {p q}, (after h).next ≤ p → q ∈ (after (a :: h)).shows p → q < p := by
    intro p q hnew hq
    rcases mem_shows_cons hp hq with hold | ⟨⟨g, hb⟩, -⟩ | ⟨-, hlt⟩
    · exact absurd (lt_next_of_mem_shows (sound_after hp.1) hold).1 (Nat.not_lt.mpr hnew)
    · exact absurd (lt_next_of_body? hb) (Nat.not_lt.mpr hnew)
    · exact hlt
  induction hpath with
  | single hq => exact hstep hr hq
  | @tail p q _ hq ih =>
    by_cases hp' : (after h).next ≤ p
    · exact Nat.lt_trans (hstep hp' hq) ih
    · have hlt := (includes_cons hp (Nat.lt_of_not_le hp') (.single hq)).1
      exact Nat.lt_of_lt_of_le hlt hr

/-- No action makes a group contain itself but one that adds to it what includes it. -/
theorem grounded_cons (hp : Possible (a :: h)) (hg : (after h).Grounded)
    (ha : ¬ (after h).Closes a) : (after (a :: h)).Grounded := by
  intro r g _ hpath
  by_cases hr : r < (after h).next
  · obtain ⟨-, hold | ⟨t, m, rfl, hgroup, hrt, hmr⟩⟩ := includes_cons hp hr hpath
    · exact irrefl_of_groups hp.1 holds_of_mem_shows hg r hold
    · -- From the member one comes to the error, and from there to the group.
      refine ha ⟨hgroup, ?_⟩
      rcases hmr with rfl | hmr
      · exact hrt
      · rcases hrt with rfl | hrt
        · exact .inr hmr
        · exact .inr (hmr.trans hrt)
  · exact Nat.lt_irrefl r (lt_of_includes_cons hp (Nat.le_of_not_lt hr) hpath)

end

section

variable {h : History} {r m : Ref}

private theorem mem_shows_append (hp : Possible (.append r (some m) :: h)) {p q : Ref}
    (hlive : p ∈ (after h).living) (hq : q ∈ (after h).shows p) :
    q ∈ (after (.append r (some m) :: h)).shows p := by
  have hs := sound_after hp.1
  obtain ⟨b, hb, hmem⟩ := exists_body?_of_mem_shows hq
  have hlive' : p ∈ (after (.append r (some m) :: h)).living :=
    (Action.mem_living_apply hs _ p).mpr (Action.living_subset_act hs rfl p hlive)
  have hb' : (after (.append r (some m) :: h)).body? p =
      some (Action.touch (.append r (some m)) p b) := by
    rw [after, Action.body?_apply_of_living hs _ (lt_next_of_body? hb) hlive', hb]
    rfl
  rw [shows_of_body? hb', Action.touch]
  split
  · cases b with
    | group g => exact List.mem_append_left _ hmem
    | _ => exact hmem
  · exact hmem

private theorem includes_append (hp : Possible (.append r (some m) :: h)) {p q : Ref}
    (hlive : p ∈ (after h).living) (hpath : (after h).Includes p q) :
    q ∈ (after h).living ∧ (after (.append r (some m) :: h)).Includes p q := by
  have hliving : ∀ {p q}, p ∈ (after h).living → q ∈ (after h).shows p → q ∈ (after h).living := by
    intro p q hlive hq
    obtain ⟨b, hb, hmem⟩ := holds_of_mem_shows hq
    exact (sound_after hp.1).mem_living hlive hb hmem
  induction hpath with
  | single hq => exact ⟨hliving hlive hq, .single (mem_shows_append hp hlive hq)⟩
  | tail _ hq ih => exact ⟨hliving ih.1 hq, .tail ih.2 (mem_shows_append hp ih.1 hq)⟩

/-- A group that is given a member whose text includes its own contains itself. -/
theorem circular_append (hp : Possible (.append r (some m) :: h))
    (hclose : (after h).Closes (.append r (some m))) :
    (after (.append r (some m) :: h)).Circular r := by
  obtain ⟨⟨g, hb⟩, hmr⟩ := hclose
  have hs := sound_after hp.1
  have hr : r ∈ (after h).living := hp.2.1 r (by simp [Action.refs])
  have hm : m ∈ (after h).living := hp.2.1 m (by simp [Action.refs])
  have hr' : r ∈ (after (.append r (some m) :: h)).living :=
    (Action.mem_living_apply hs _ r).mpr (Action.living_subset_act hs rfl r hr)
  have hb' : (after (.append r (some m) :: h)).body? r =
      some (.group { g with members := g.members ++ [m] }) := by
    rw [after, Action.body?_apply_of_living hs _ (lt_next_of_body? hb) hr', hb, Option.map_some,
      Action.touch, if_pos rfl]
    rfl
  have hmember : m ∈ (after (.append r (some m) :: h)).shows r :=
    shows_of_body? hb' ▸ List.mem_append_right _ (List.mem_singleton.mpr rfl)
  refine ⟨⟨_, hb'⟩, ?_⟩
  rcases hmr with rfl | hmr
  · exact .single hmember
  · exact .head hmember (includes_append hp hm hmr).2

end

/-- Where no group contains itself, an action keeps this exactly if it does not add to a group what
includes the group. -/
theorem grounded_cons_iff {a : Action} {h : History} (hp : Possible (a :: h))
    (hg : (after h).Grounded) : (after (a :: h)).Grounded ↔ ¬ (after h).Closes a := by
  refine ⟨fun hg' hclose => ?_, grounded_cons hp hg⟩
  cases a with
  | append r member? =>
    cases member? with
    | none => exact hclose
    | some m => exact (grounded_iff _).mp hg' r (circular_append hp hclose)
  | _ => exact hclose

/-- In a run in which no group is given what includes it, no group comes to contain itself. -/
theorem grounded_of_not_closes {h : History} (hp : Possible h)
    (hnone : ∀ a h₀, a :: h₀ <:+ h → ¬ (after h₀).Closes a) : (after h).Grounded := by
  induction h with
  | nil => exact fun r g hb => absurd hb nofun
  | cons a h ih =>
    have hg := ih hp.1 fun a' h₀ hs => hnone a' h₀ (hs.trans (List.suffix_cons a h))
    exact grounded_cons hp hg (hnone a h (List.suffix_refl _))

/-- An error has a text exactly if that includes no group that contains itself. -/
theorem isSome_text?_iff {h : History} (hp : Possible h) {r : Ref} (hr : r < (after h).next) :
    ((after h).text? r).isSome ↔
      ∀ t, (after h).Circular t → ¬ (r = t ∨ (after h).Includes r t) := by
  have hs := sound_after hp
  rw [isSome_text?_iff_acc hs hr, acc_iff_of_finite fun hq => (lt_next_of_mem_shows hs hq).symm]
  have hswap : ∀ {q p}, Relation.TransGen (fun q r => q ∈ (after h).shows r) q p ↔
      (after h).Includes p q := Relation.transGen_swap
  constructor
  · rintro hacc t ⟨-, hcircle⟩ hrt
    refine hacc t ?_ (hswap.mpr hcircle)
    rcases hrt with rfl | hrt
    · exact .refl
    · exact (hswap.mpr hrt).to_reflTransGen
  · intro hnone q hq hcircle
    obtain ⟨t, g, hb, hqt, htt⟩ :=
      exists_group_of_circle hp holds_of_mem_shows (hswap.mp hcircle)
    refine hnone t ⟨⟨g, hb⟩, htt⟩ ?_
    rcases Relation.reflTransGen_iff_eq_or_transGen.mp hq with rfl | hrq
    · exact hqt
    · rcases hqt with rfl | hqt
      · exact .inr (hswap.mp hrq)
      · exact .inr ((hswap.mp hrq).trans hqt)

/-- Inclusion ends everywhere exactly if no group contains itself. -/
theorem wellFounded_shows_iff {h : History} (hp : Possible h) :
    (WellFounded fun q r => q ∈ (after h).shows r) ↔ (after h).Grounded := by
  refine ⟨fun hwf r g _ hcircle => ?_, wellFounded_shows hp⟩
  have hswap : Relation.TransGen (fun q r => q ∈ (after h).shows r) r r :=
    Relation.transGen_swap.mpr hcircle
  exact hwf.transGen.asymmetric r r hswap hswap

end Store

end Mishap
