import Mishap.Proofs.Store.Pooling
import Mishap.Proofs.Store.Text
import Mishap.Report.Entry

/-!
# The contents of groups over a run

The members of a living group are read off the run (`members_after`): what was added to it since it
was last emptied. What refers to errors of an earlier moment, a joined error or a list of members,
refers to the same errors ever after (`continues_after`).
-/

namespace Mishap

namespace Body

/-- An error goes on: a decorated one may be edited, a group may get other members, and any other
stays as it is. -/
inductive Continues : Body → Body → Prop
  | same (b : Body) : Continues b b
  | edited {d d' : Decorated} (message : d'.message = d.message) (cause : d'.cause? = d.cause?)
    (trace : d'.trace = d.trace) : Continues (.decorated d) (.decorated d')
  | regrouped (g g' : Group) : Continues (.group g) (.group g')

namespace Continues

/-- What goes on in two steps goes on. -/
theorem trans {b b' b'' : Body} (h : Continues b b') (h' : Continues b' b'') :
    Continues b b'' := by
  cases h with
  | same b => exact h'
  | edited message cause trace =>
    cases h' with
    | same => exact .edited message cause trace
    | edited message' cause' trace' =>
      exact .edited (message'.trans message) (cause'.trans cause) (trace'.trans trace)
  | regrouped g g' =>
    cases h' with
    | same => exact .regrouped g g'
    | regrouped _ g'' => exact .regrouped g g''

/-- A retired error goes on: a group only loses its members. -/
theorem retired (b : Body) : Continues b b.retired := by
  unfold Body.retired
  split
  · next h =>
    cases b with
    | group g => exact .regrouped g _
    | _ => exact absurd h nofun
  · exact .same b

private theorem edit (e : Decorated.Edit) (b : Body) : Continues b (b.edited e) := by
  cases b with
  | decorated d =>
    obtain ⟨message, cause, trace⟩ := e.apply_frame d
    exact .edited message cause trace
  | _ => exact .same _

private theorem withMembers (f : List Ref → List Ref) (b : Body) :
    Continues b (b.withMembers f) := by
  cases b with
  | group g => exact .regrouped g _
  | _ => exact .same _

/-- A touched error goes on. -/
theorem touch (a : Store.Action) (q : Ref) (b : Body) : Continues b (a.touch q b) := by
  unfold Store.Action.touch
  split
  · split
    · exact edit _ b
    · exact .same b
  · split
    · exact withMembers _ b
    · exact .same b
  · split
    · exact withMembers _ b
    · exact .same b
  · split
    · exact retired b
    · exact .same b
  · exact .same b

end Continues

end Body

namespace Store

/-! ### What stays -/

/-- Whatever a run does later, each place goes on with the same error. -/
theorem continues_after {later h : History} (hp : Possible (later ++ h)) {q : Ref} {b : Body}
    (hb : (after h).body? q = some b) :
    ∃ b', (after (later ++ h)).body? q = some b' ∧ b.Continues b' := by
  induction later with
  | nil => exact ⟨b, hb, .same b⟩
  | cons a later ih =>
    obtain ⟨b', hb', hcont⟩ := ih hp.1
    have hs : (after (later ++ h)).Sound := sound_after hp.1
    rw [List.cons_append, after, Action.body?_apply hs a (lt_next_of_body? hb'), hb',
      Option.map_some]
    refine ⟨_, rfl, hcont.trans ?_⟩
    split
    · exact .touch a q b'
    · exact (Body.Continues.touch a q b').trans (.retired _)

/-- The parts of an error are those of the joined error that it is. -/
theorem parts?_eq_some_iff {s : Store} {j : Ref} {parts : List Ref} :
    s.parts? j = some parts ↔ s.body? j = some (.joined parts) := by
  unfold parts?
  constructor
  · intro h
    split at h
    · next hb =>
      cases h
      exact hb
    · exact absurd h nofun
  · intro h
    rw [h]

/-- A joined error has the same parts ever after. -/
theorem parts?_after {later h : History} (hp : Possible (later ++ h)) {j : Ref} {parts : List Ref}
    (hj : (after h).parts? j = some parts) : (after (later ++ h)).parts? j = some parts := by
  obtain ⟨b', hb', hcont⟩ := continues_after hp (parts?_eq_some_iff.mp hj)
  cases hcont
  exact parts?_eq_some_iff.mpr hb'

/-! ### Members -/

/-- What was added to a group since it was last emptied: by its making, by a clearing, or by its
first release if it was taken from a pool. -/
def collected : History → Ref → List Ref
  | [], _ => []
  | a :: h, r =>
    match a with
    | .append q member? => if q = r then collected h r ++ member?.toList else collected h r
    | .clear q => if q = r then [] else collected h r
    | .release q =>
      if q = r ∧ (takenFrom? h r).isSome ∧ released h r = false then [] else collected h r
    | .addGroup | .takeGroup _ => if r = (after h).next then [] else collected h r
    | _ => collected h r

private theorem group_of_touch {a : Action} {r : Ref} {b : Body} {g : Group}
    (h : a.touch r b = .group g) : ∃ g₀, b = .group g₀ := by
  have hcont := Body.Continues.touch a r b
  rw [h] at hcont
  cases hcont with
  | same => exact ⟨g, rfl⟩
  | regrouped g₀ => exact ⟨g₀, rfl⟩

private theorem members_touch {a : Action} {h : History} {r : Ref} {g₀ g : Group}
    (htouch : a.touch r (.group g₀) = .group g) (hlt : r < (after h).next)
    (hpooled : g₀.pool?.isSome = true ↔ (takenFrom? h r).isSome ∧ released h r = false)
    (hmembers : g₀.members = collected h r) : g.members = collected (a :: h) r := by
  -- What an action does to the members of an old group, it does to what the group collected.
  cases a with
  | append q member? =>
    simp only [Action.touch] at htouch
    rw [collected]
    split at htouch
    · next heq =>
      cases htouch
      rw [if_pos heq, ← hmembers]
    · next hne =>
      cases htouch
      rw [if_neg hne, hmembers]
  | clear q =>
    simp only [Action.touch] at htouch
    rw [collected]
    split at htouch
    · next heq =>
      cases htouch
      rw [if_pos heq]
    · next hne =>
      cases htouch
      rw [if_neg hne, hmembers]
  | release q =>
    simp only [Action.touch] at htouch
    rw [collected]
    split at htouch
    · next heq =>
      rw [Body.retired] at htouch
      split at htouch
      · next hsome =>
        cases htouch
        rw [if_pos ⟨heq, hpooled.mp hsome⟩]
      · next hnone =>
        cases htouch
        rw [if_neg fun hand => hnone (hpooled.mpr hand.2), hmembers]
    · next hne =>
      cases htouch
      rw [if_neg fun hand => hne hand.1, hmembers]
  | edit q e =>
    simp only [Action.touch] at htouch
    split at htouch <;> (cases htouch; exact hmembers)
  | addGroup => cases htouch; exact hmembers.trans (if_neg (Nat.ne_of_lt hlt)).symm
  | takeGroup p => cases htouch; exact hmembers.trans (if_neg (Nat.ne_of_lt hlt)).symm
  | _ => cases htouch; exact hmembers

/-- The members of a living group are what was added since it was last emptied. -/
theorem members_after {h : History} (hp : Possible h) {r : Ref} {g : Group}
    (hb : (after h).body? r = some (.group g)) (hlive : r ∈ (after h).living) :
    g.members = collected h r := by
  induction h generalizing g with
  | nil => exact absurd hb nofun
  | cons a h ih =>
    have hs := sound_after hp.1
    by_cases hlt : r < (after h).next
    · have hold := mem_living_of_cons hp hlt hlive
      rw [after, Action.body?_apply_of_living hs a hlt hlive] at hb
      obtain ⟨b, hb₀, htouch⟩ := Option.map_eq_some_iff.mp hb
      obtain ⟨g₀, rfl⟩ := group_of_touch htouch
      -- Whether a release empties the group is decided by its pool here, by the run there.
      have hpooled : g₀.pool?.isSome = true ↔ (takenFrom? h r).isSome ∧ released h r = false := by
        rw [← isPooled_after hp.1 hold, isPooled, group?, hb₀]
        rfl
      exact members_touch htouch hlt hpooled (ih hp.1 hb₀ hold)
    · obtain ⟨i, rfl⟩ := Nat.exists_eq_add_of_le (Nat.le_of_not_lt hlt)
      rw [after, Action.body?_apply_new hs] at hb
      obtain ⟨rfl, ⟨rfl, rfl⟩ | ⟨p, rfl, rfl⟩⟩ := Action.group?_made hb rfl
      · exact (if_pos rfl).symm
      · exact (if_pos rfl).symm

/-! ### What is told of a group -/

/-- All that a group can be asked tells of the same errors. -/
structure Tells (s : Store) (r : Ref) (errors : List Ref) : Prop where
  members : s.members r = errors
  size : s.size r = errors.length
  hasMembers : s.hasMembers r = true ↔ errors ≠ []
  hasNoMembers : s.hasNoMembers r = true ↔ errors = []
  asError? : s.asError? r = if errors = [] then none else some r
  text? : s.text? r = (texts? s.text? errors).map groupText
  /-- The text of the group shows the texts of all these errors, in order and with numbers. -/
  shows : ∀ t, s.text? r = some t ↔
    ∃ ts, errors.map s.text? = ts.map some ∧ ShowsMembers ts t
  report : ∀ now, GroupReport.ofGroup s now (s.members r) =
    ⟨errors.length, Time.Rfc3339.writeSeconds now, errors.map (Entry.ofError s)⟩
  join : s.joinGroup r = if errors = [] then none else some (s.add (.joined errors))

private theorem tells_of_group {s : Store} {r : Ref} {g : Group}
    (hb : s.body? r = some (.group g)) :
    s.Tells r g.members := by
  have hmembers : s.members r = g.members := by
    rw [members, group?, hb]
    rfl
  have hhas : s.hasMembers r = true ↔ g.members ≠ [] := by
    rw [hasMembers, hmembers, Bool.not_eq_true', List.isEmpty_eq_false_iff]
  refine ⟨hmembers, ?_, hhas, ?_, ?_, text?_group hb, fun t => ?_, fun now => ?_, ?_⟩
  · rw [size, hmembers]
  · rw [hasNoMembers, Bool.not_eq_true', ← Bool.not_eq_true, hhas, Classical.not_not]
  · rw [Store.asError?]
    split
    · next h => rw [if_neg (hhas.mp h)]
    · next h => rw [if_pos (Classical.not_not.mp fun hne => h (hhas.mpr hne))]
  · rw [text?_group hb, Option.map_eq_some_iff]
    exact exists_congr fun ts => and_congr texts?_eq_some_iff (eq_comm.trans showsMembers_iff.symm)
  · rw [GroupReport.ofGroup, hmembers, List.length_map]
  · rw [Store.joinGroup, hmembers]
    cases g.members with
    | nil => rfl
    | cons m ms => rfl

/-- What a run keeps to, for its groups and for what refers to errors of an earlier moment. -/
structure Contents (h : History) : Prop where
  /-- A living group tells of what was added to it since it was last emptied, and all of that
  lives. -/
  group : ∀ r g, (after h).body? r = some (.group g) → r ∈ (after h).living →
    (after h).Tells r (collected h r) ∧ ∀ m ∈ collected h r, m ∈ (after h).living
  /-- Joined, these errors are the parts of a new error, which shows their texts. -/
  join : ∀ r g, (after h).body? r = some (.group g) → r ∈ (after h).living → collected h r ≠ [] →
    let t := after (.joinGroup r :: h)
    Possible (.joinGroup r :: h) ∧ t.parts? (after h).next = some (collected h r) ∧
      t.text? (after h).next =
        (texts? t.text? (collected h r)).map (String.intercalate "\n")
  /-- A joined error has the same parts ever after, and they live as long as it does. -/
  parts : ∀ later, Possible (later ++ h) → ∀ j parts, (after h).parts? j = some parts →
    (after (later ++ h)).parts? j = some parts ∧
      (j ∈ (after (later ++ h)).living → ∀ m ∈ parts, m ∈ (after (later ++ h)).living)
  /-- Each place goes on with the same error. -/
  places : ∀ later, Possible (later ++ h) → ∀ q b, (after h).body? q = some b →
    ∃ b', (after (later ++ h)).body? q = some b' ∧ b.Continues b'

/-- In every world groups tell of what was added to them, and joined errors keep their parts. -/
theorem contents_of_possible {h : History} (hp : Possible h) : Contents h := by
  have hs := sound_after hp
  refine ⟨fun r g hb hlive => ?_, fun r g hb hlive hne => ?_, fun later hp j parts hj => ?_,
    fun later hp q b hb => continues_after hp hb⟩
  · rw [← members_after hp hb hlive]
    exact ⟨tells_of_group hb, fun m hm => hs.mem_living hlive hb hm⟩
  · have hallowed : (after h).Allowed (.joinGroup r) :=
      ⟨fun q hq => List.mem_singleton.mp hq ▸ hlive, nofun, nofun⟩
    have hmembers := (tells_of_group hb).members.trans (members_after hp hb hlive)
    have hjoined : (after (.joinGroup r :: h)).body? (after h).next =
        some (.joined (collected h r)) := by
      rw [after, ← Nat.add_zero (after h).next, Action.body?_apply_new hs, Action.made, hmembers,
        if_neg hne]
      rfl
    exact ⟨⟨hp, hallowed⟩, parts?_eq_some_iff.mpr hjoined, text?_joined hjoined⟩
  · have hlater := parts?_after hp hj
    refine ⟨hlater, fun hlive m hm => ?_⟩
    exact (sound_after hp).mem_living hlive (parts?_eq_some_iff.mp hlater) hm

/-- A group from a pool is joined with one error in it, then released, and its buffer goes to
another. -/
def recycled : History :=
  [.append 3 (some 1), .takeGroup 0, .release 0, .joinGroup 0, .append 0 (some 1), .leaf "lost" 0,
    .takeGroup 0, .addPool default]

/-- The contents of groups that share a buffer one after the other. -/
theorem contents_recycled : Possible recycled ∧ Contents recycled :=
  ⟨by decide, contents_of_possible (by decide)⟩

example : (after recycled).parts? 2 = some [1] ∧ collected recycled 0 = [] ∧
    collected recycled 3 = [1] := by
  decide

end Store

end Mishap
