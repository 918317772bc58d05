import Mathlib.Data.Fintype.EquivFin
import Mathlib.Logic.Relation
import Mishap.Proofs.Store.Nearest
import Mishap.Proofs.Store.Text

/-!
# Texts that end

The text of an error includes the texts of others: of the cause of a decorated error, of the parts
of a joined one, of the members of a group. Only a group can come to include what is younger than
itself. An error has a text exactly if what its text includes goes on to an end
(`isSome_text?_iff_acc`), so where no group contains itself (`Grounded`) inclusion ends everywhere
(`wellFounded_shows`) and every error has a text (`text?_eq_some_text`).
-/

namespace Mishap

namespace Body

/-- The errors whose texts the text of an error includes. An error with a message of its own over a
source shows that message alone. -/
def shows : Body → List Ref
  | linked _ _ => []
  | b => b.holds

/-- What is included is held. -/
theorem holds_of_mem_shows {b : Body} {q : Ref} (h : q ∈ b.shows) : q ∈ b.holds := by
  cases b with
  | linked m source => exact absurd h List.not_mem_nil
  | _ => exact h

/-- Whatever is no group goes on to hold what it held. -/
theorem Continues.holds_eq {b b' : Body} (h : Continues b b') (hb : b'.group? = none) :
    b.group? = none ∧ b'.holds = b.holds := by
  cases h with
  | same => exact ⟨hb, rfl⟩
  | edited message cause trace => exact ⟨rfl, congrArg Option.toList cause⟩
  | regrouped g g' => exact absurd hb nofun

end Body

namespace Store

/-- The errors whose texts the text of an error includes. -/
def shows (s : Store) (r : Ref) : List Ref := ((s.body? r).map Body.shows).getD []

/-- The text of an error includes that of another, directly or within others. -/
def Includes (s : Store) : Ref → Ref → Prop := Relation.TransGen fun r q => q ∈ s.shows r

/-- No group contains itself: its text does not come to include itself. -/
def Grounded (s : Store) : Prop := ∀ r g, s.body? r = some (.group g) → ¬ s.Includes r r

variable {s : Store} {r q : Ref}

/-- What is included hangs on the error alone. -/
theorem shows_of_body? {b : Body} (h : s.body? r = some b) : s.shows r = b.shows := by
  rw [shows, h]
  rfl

/-- Whatever includes another text is an error of the store. -/
theorem exists_body?_of_mem_shows (h : q ∈ s.shows r) :
    ∃ b, s.body? r = some b ∧ q ∈ b.shows := by
  cases hb : s.body? r with
  | none => simp [shows, hb] at h
  | some b => exact ⟨b, rfl, shows_of_body? hb ▸ h⟩

/-- What is included is held. -/
theorem holds_of_mem_shows (h : q ∈ s.shows r) : ∃ b, s.body? r = some b ∧ q ∈ b.holds := by
  obtain ⟨b, hb, hq⟩ := exists_body?_of_mem_shows h
  exact ⟨b, hb, Body.holds_of_mem_shows hq⟩

/-- What includes and what is included are both in the store. -/
theorem lt_next_of_mem_shows (hs : s.Sound) (h : q ∈ s.shows r) : r < s.next ∧ q < s.next := by
  obtain ⟨b, hb, hq⟩ := holds_of_mem_shows h
  exact ⟨lt_next_of_body? hb, hs.held_lt r b hb q hq⟩

/-- Where what is included has a smaller number than what includes it, nothing includes itself. -/
theorem grounded_of_rank (rank : Ref → Nat)
    (h : ∀ r < s.next, ∀ q ∈ s.shows r, rank q < rank r) : s.Grounded := by
  have hlt : ∀ {r q}, s.Includes r q → rank q < rank r := by
    intro r q hinc
    have hstep : ∀ {r q}, q ∈ s.shows r → rank q < rank r := fun hq =>
      h _ (lt_next_of_body? (exists_body?_of_mem_shows hq).choose_spec.1) _ hq
    induction hinc with
    | single hq => exact hstep hq
    | tail _ hq ih => exact Nat.lt_trans (hstep hq) ih
  intro r g _ hinc
  exact Nat.lt_irrefl _ (hlt hinc)

/-! ### Inclusion ends -/

/-- Whatever is no group holds older errors only. -/
theorem holds_lt_after {h : History} (hp : Possible h) {r : Ref} {b : Body}
    (hb : (after h).body? r = some b) (hgroup : b.group? = none) : ∀ q ∈ b.holds, q < r := by
  induction h generalizing b with
  | nil => exact absurd hb nofun
  | cons a h ih =>
    intro q hq
    by_cases hr : r < (after h).next
    · obtain ⟨b₀, hb₀⟩ := body?_of_lt hr
      obtain ⟨b', hb', hcont⟩ := continues_cons hp hb₀
      cases hb.symm.trans hb'
      obtain ⟨hgroup₀, hholds⟩ := hcont.holds_eq hgroup
      exact ih hp.1 hb₀ hgroup₀ q (hholds ▸ hq)
    · obtain ⟨i, rfl⟩ := Nat.exists_eq_add_of_le (Nat.le_of_not_lt hr)
      rw [after, Action.body?_apply_new (sound_after hp.1)] at hb
      rcases Action.holds_made (sound_after hp.1) hp.2 hb hq with hlive | hnew
      · exact Nat.lt_add_right i (lt_next_of_mem_living hlive)
      · exact hnew.2

section

variable {h : History} {edge : Ref → Ref → Prop}

private theorem older_or_through_group (hp : Possible h)
    (hedge : ∀ {r q}, edge r q → ∃ b, (after h).body? r = some b ∧ q ∈ b.holds)
    (hpath : Relation.TransGen edge r q) :
    q < r ∨ ∃ t g, (after h).body? t = some (.group g) ∧
      (r = t ∨ Relation.TransGen edge r t) ∧ Relation.TransGen edge t q := by
  -- Along holds one comes to older errors only, unless one comes through a group.
  have hstep : ∀ {r q}, edge r q → q < r ∨ ∃ g, (after h).body? r = some (.group g) := by
    intro r q hq
    obtain ⟨b, hb, hmem⟩ := hedge hq
    cases hgroup : b.group? with
    | none => exact .inl (holds_lt_after hp hb hgroup q hmem)
    | some g =>
      cases b with
      | group g => exact .inr ⟨g, hb⟩
      | _ => exact absurd hgroup nofun
  induction hpath with
  | single hq =>
    rcases hstep hq with hlt | ⟨g, hg⟩
    · exact .inl hlt
    · exact .inr ⟨r, g, hg, .inl rfl, .single hq⟩
  | @tail p q hrp hq ih =>
    rcases ih with hlt | ⟨t, g, hg, hrt, htp⟩
    · rcases hstep hq with hlt' | ⟨g, hg⟩
      · exact .inl (Nat.lt_trans hlt' hlt)
      · exact .inr ⟨p, g, hg, .inr hrp, .single hq⟩
    · exact .inr ⟨t, g, hg, hrt, htp.tail hq⟩

/-- Whatever comes back to itself along holds comes to a group that does. -/
theorem exists_group_of_circle (hp : Possible h)
    (hedge : ∀ {r q}, edge r q → ∃ b, (after h).body? r = some b ∧ q ∈ b.holds)
    (hpath : Relation.TransGen edge r r) :
    ∃ t g, (after h).body? t = some (.group g) ∧ (r = t ∨ Relation.TransGen edge r t) ∧
      Relation.TransGen edge t t := by
  rcases older_or_through_group hp hedge hpath with hlt | ⟨t, g, hb, rfl | hrt, htr⟩
  · exact absurd hlt (Nat.lt_irrefl _)
  · exact ⟨r, g, hb, .inl rfl, htr⟩
  · exact ⟨t, g, hb, .inr hrt, htr.trans hrt⟩

/-- Where no group comes back to itself along holds, nothing does. -/
theorem irrefl_of_groups (hp : Possible h)
    (hedge : ∀ {r q}, edge r q → ∃ b, (after h).body? r = some b ∧ q ∈ b.holds)
    (hg : ∀ r g, (after h).body? r = some (.group g) → ¬ Relation.TransGen edge r r) (r : Ref) :
    ¬ Relation.TransGen edge r r := by
  intro hpath
  obtain ⟨t, g, hb, -, hcircle⟩ := exists_group_of_circle hp hedge hpath
  exact hg t g hb hcircle

/-- Among finitely many places a relation that never leads back ends. -/
theorem wellFounded_of_irrefl {n : Nat} (hlt : ∀ {r q}, edge q r → q < n ∧ r < n)
    (hirrefl : ∀ r, ¬ Relation.TransGen edge r r) : WellFounded edge := by
  let within : Fin n → Fin n → Prop := fun q r => Relation.TransGen edge q r
  have : IsTrans (Fin n) within := ⟨fun _ _ _ hab hbc => Relation.TransGen.trans hab hbc⟩
  have : Std.Irrefl within := ⟨fun r => hirrefl r⟩
  have hwithin : WellFounded within := Finite.wellFounded_of_trans_of_irrefl within
  have hacc : ∀ r : Fin n, Acc edge r.val := by
    intro r
    induction r using hwithin.induction with
    | _ r ih => exact ⟨_, fun q hq => ih ⟨q, (hlt hq).1⟩ (.single hq)⟩
  exact ⟨fun r => ⟨r, fun q hq => hacc ⟨q, (hlt hq).1⟩⟩⟩

private theorem not_transGen_of_acc {r : Ref} (hacc : Acc edge r) :
    ¬ Relation.TransGen edge r r := by
  induction hacc with
  | intro r _ ih =>
    intro hpath
    obtain ⟨p, hrp, hpr⟩ := Relation.TransGen.tail'_iff.mp hpath
    exact ih p hpr (Relation.TransGen.head' hpr hrp)

/-- Among finitely many places a relation ends below one of them exactly if it leads back nowhere
below it. -/
theorem acc_iff_of_finite {n : Nat} (hlt : ∀ {r q}, edge q r → q < n ∧ r < n) {r : Ref} :
    Acc edge r ↔ ∀ q, Relation.ReflTransGen edge q r → ¬ Relation.TransGen edge q q := by
  constructor
  · intro hacc q hq
    have hbelow : Acc edge q := by
      induction hq using Relation.ReflTransGen.head_induction_on with
      | refl => exact hacc
      | head hqp _ ih => exact ih.inv hqp
    exact not_transGen_of_acc hbelow
  · intro hirrefl
    -- Of the relation only what lies below the place matters, and that ends everywhere.
    let within : Ref → Ref → Prop := fun q p => edge q p ∧ Relation.ReflTransGen edge p r
    have hwithin : WellFounded within := by
      refine wellFounded_of_irrefl (n := n) (fun hq => hlt hq.1) fun q hpath => ?_
      obtain ⟨p, ⟨hqp, hpr⟩, -⟩ := Relation.TransGen.head'_iff.mp hpath
      have hcircle : Relation.TransGen edge q q :=
        Relation.TransGen.mono (fun _ _ hq => hq.1) q q hpath
      exact hirrefl q (.head hqp hpr) hcircle
    have hacc : ∀ q, Relation.ReflTransGen edge q r → Acc edge q := by
      intro q
      induction q using hwithin.induction with
      | _ q ih => exact fun hq => ⟨q, fun p hp => ih p ⟨hp, hq⟩ (.head hp hq)⟩
    exact hacc r .refl

end

/-- Where no group contains itself, inclusion ends everywhere. -/
theorem wellFounded_shows {h : History} (hp : Possible h) (hg : (after h).Grounded) :
    WellFounded fun q r => q ∈ (after h).shows r := by
  refine wellFounded_of_irrefl
    (fun hq => (lt_next_of_mem_shows (sound_after hp) hq).symm) fun r hpath => ?_
  exact irrefl_of_groups hp holds_of_mem_shows hg r (Relation.transGen_swap.mp hpath)

/-! ### Texts exist -/

private theorem isSome_texts?_iff {one : Ref → Option String} {rs : List Ref} :
    (texts? one rs).isSome ↔ ∀ q ∈ rs, (one q).isSome := by
  induction rs with
  | nil => simp [texts?]
  | cons q rs ih =>
    rw [List.forall_mem_cons, ← ih]
    cases hq : one q <;> cases hrs : texts? one rs <;> simp [texts?, hq, hrs]

private theorem isSome_textOver_iff {one : Ref → Option String} {b : Body}
    (hb : s.body? r = some b) :
    (s.textOver one r).isSome ↔ ∀ q ∈ b.shows, (one q).isSome := by
  rw [textOver, hb]
  cases b with
  | leaf m => simp [Body.shows, Body.holds]
  | system m => simp [Body.shows, Body.holds]
  | linked m source => simp [Body.shows]
  | veiled inner source? => simp [Body.shows, Body.holds]
  | envelope inner => simp [Body.shows, Body.holds]
  | decorated d => cases hc : d.cause? <;> simp [Body.shows, Body.holds, hc]
  | joined parts => simp [Body.shows, Body.holds, isSome_texts?_iff]
  | group g => simp [Body.shows, Body.holds, isSome_texts?_iff]

private theorem acc_of_isSome_textFrom {fuel : Nat} (h : (s.textFrom fuel r).isSome) :
    Acc (fun q r => q ∈ s.shows r) r := by
  induction fuel generalizing r with
  | zero => exact absurd h nofun
  | succ fuel ih =>
    refine ⟨r, fun q hq => ?_⟩
    obtain ⟨b, hb, hmem⟩ := exists_body?_of_mem_shows hq
    rw [textFrom_succ] at h
    exact ih ((isSome_textOver_iff hb).mp h q hmem)

/-- An error has a text exactly if what its text includes goes on to an end. -/
theorem isSome_text?_iff_acc (hs : s.Sound) (hr : r < s.next) :
    (s.text? r).isSome ↔ Acc (fun q r => q ∈ s.shows r) r := by
  refine ⟨acc_of_isSome_textFrom, fun hacc => ?_⟩
  induction hacc with
  | intro r _ ih =>
    obtain ⟨b, hb⟩ := body?_of_lt hr
    rw [text?_eq_textOver, isSome_textOver_iff hb]
    intro q hq
    have hmem : q ∈ s.shows r := shows_of_body? hb ▸ hq
    exact ih q hmem (lt_next_of_mem_shows hs hmem).2

/-- Where no group contains itself, every error has a text. -/
theorem text?_eq_some_text {h : History} (hp : Possible h) (hg : (after h).Grounded) {r : Ref}
    (hr : r < (after h).next) : (after h).text? r = some ((after h).text r) := by
  have hsome : ((after h).text? r).isSome :=
    (isSome_text?_iff_acc (sound_after hp) hr).mpr ((wellFounded_shows hp hg).apply r)
  obtain ⟨t, ht⟩ := Option.isSome_iff_exists.mp hsome
  rw [text, ht, Option.getD_some]

/-- The cause of a decorated error has a text as well. -/
theorem text?_of_cause {h : History} (hp : Possible h) (hg : (after h).Grounded) {r c : Ref}
    {d : Decorated} (hd : (after h).decorated? r = some d) (hc : d.cause? = some c) :
    (after h).text? c = some ((after h).text c) := by
  have hb := decorated?_eq_some_iff.mp hd
  have hshows : c ∈ (after h).shows r := by simp [shows_of_body? hb, Body.shows, Body.holds, hc]
  exact text?_eq_some_text hp hg (lt_next_of_mem_shows (sound_after hp) hshows).2

/-- The text of a decorated error is its message, before the text of its cause if it has one. -/
theorem text?_decorated {d : Decorated} (h : s.decorated? r = some d) :
    s.text? r =
      match d.cause? with
      | none => some d.message
      | some c => (s.text? c).map fun t => d.message ++ ": " ++ t := by
  have hlayer : s.text? r = s.textOver s.text? r := congrFun (text?_eq_textOver s) r
  rw [textOver, decorated?_eq_some_iff.mp h] at hlayer
  exact hlayer

end Store

end Mishap
