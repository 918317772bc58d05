import Mishap.Proofs.Report.Agreement
import Mishap.Proofs.Store.Circles

/-!
# Operations that show texts

A text that includes itself never ends, and an operation that shows it does not end either. Reports,
entries, exports of groups and the reports that are exported are here computed over texts that need
not be there (`report?`, `ofError?`, `ofGroup?`). Each of them ends exactly if the texts do that it
shows, and then gives what the operation gives (`EndsWhere`); the texts end exactly if they include
no group that contains itself (`rendered_of_possible`).
-/

namespace Mishap

/-- A computation that need not end: it ends exactly where a condition holds, with one value. -/
def EndsWhere {α : Type} (x? : Option α) (p : Prop) (x : α) : Prop := ∀ y, x? = some y ↔ p ∧ y = x

namespace EndsWhere

variable {α β : Type} {x? : Option α} {p q : Prop} {x : α}

private theorem eq_some (h : EndsWhere x? p x) (hp : p) : x? = some x := (h x).mpr ⟨hp, rfl⟩

private theorem isSome_iff (h : EndsWhere x? p x) : x?.isSome ↔ p := by
  rw [Option.isSome_iff_exists]
  exact ⟨fun ⟨y, hy⟩ => ((h y).mp hy).1, fun hp => ⟨x, h.eq_some hp⟩⟩

/-- Conditions that say the same are the same condition for an end. -/
theorem congr (h : EndsWhere x? p x) (hpq : p ↔ q) : EndsWhere x? q x :=
  fun y => (h y).trans (and_congr_left' hpq)

/-- A value is computed at once. -/
theorem value (x : α) : EndsWhere (some x) True x := by
  intro y
  simp [eq_comm]

/-- Two computations one after the other end where both do. -/
theorem bind {f : α → Option β} {y : β} (h : EndsWhere x? p x) (hf : EndsWhere (f x) q y) :
    EndsWhere (x? >>= f) (p ∧ q) y := by
  intro z
  rw [Option.bind_eq_bind, Option.bind_eq_some_iff]
  constructor
  · rintro ⟨x', hx, hz⟩
    obtain ⟨hp, rfl⟩ := (h x').mp hx
    obtain ⟨hq, rfl⟩ := (hf z).mp hz
    exact ⟨⟨hp, hq⟩, rfl⟩
  · rintro ⟨⟨hp, hq⟩, rfl⟩
    exact ⟨x, h.eq_some hp, hf.eq_some hq⟩

/-- What is computed of a result ends where the result does. -/
theorem map (f : α → β) (h : EndsWhere x? p x) : EndsWhere (x?.map f) p (f x) := by
  intro z
  rw [Option.map_eq_some_iff]
  constructor
  · rintro ⟨x', hx, rfl⟩
    obtain ⟨hp, rfl⟩ := (h x').mp hx
    exact ⟨hp, rfl⟩
  · rintro ⟨hp, rfl⟩
    exact ⟨x, h.eq_some hp, rfl⟩

/-- What is computed of something that may be missing. -/
theorem optional {f? : α → Option β} {f : α → β} {c : α → Prop} {o : Option α}
    (h : ∀ a, o = some a → EndsWhere (f? a) (c a) (f a)) :
    EndsWhere (o.mapM f?) (∀ a, o = some a → c a) (o.map f) := by
  cases o with
  | none => exact (value none).congr (by simp)
  | some a => exact ((h a rfl).map some).congr (by simp)

/-- Computations for each of a list end where all of them do. -/
theorem mapM {f? : α → Option β} {f : α → β} {c : α → Prop} {xs : List α}
    (h : ∀ a ∈ xs, EndsWhere (f? a) (c a) (f a)) :
    EndsWhere (xs.mapM f?) (∀ a ∈ xs, c a) (xs.map f) := by
  induction xs with
  | nil => exact (value []).congr (by simp)
  | cons a xs ih =>
    have hfirst := h a List.mem_cons_self
    have hrest := ih fun b hb => h b (List.mem_cons_of_mem a hb)
    have hall : c a ∧ (∀ b ∈ xs, c b) ∧ True ↔ ∀ b ∈ a :: xs, c b := by simp
    rw [List.mapM_cons]
    refine (hfirst.bind ?_).congr hall
    exact hrest.bind (.value _)

end EndsWhere

namespace Store

/-- The text of an error ends. -/
def Ends (s : Store) (r : Ref) : Prop := (s.text? r).isSome

/-- A report, if the texts end that it shows: that of the error, and to a logger that of its
cause. -/
def report? (r : Ref) (s : Store) : Option (List Effect) :=
  match s.decorated? r with
  | none => some []
  | some d => do
    let text ← s.text? r
    let logged? ← d.logger?.mapM fun l => do
      let causeText? ← d.cause?.mapM s.text?
      some (l.log .error "error occurred" (d.reportFields causeText?))
    some (d.observer.recordError text ++ logged?.toList)

end Store

namespace Entry

/-- The entry of an error, with causes to a depth, if the texts end that it shows. -/
def ofErrorFrom? (s : Store) : Nat → Ref → Option Entry
  | 0, _ => none
  | fuel + 1, r => do
    let message ← s.text? r
    match (s.find? .decorated r).bind s.decorated? with
    | none =>
      let cause? ← (s.source? r).mapM (ofErrorFrom? s fuel)
      some { message, kind := .standard, frames := [], metadata := [], cause? }
    | some d =>
      let cause? ← d.cause?.mapM (ofErrorFrom? s fuel)
      some { message, kind := .decorated, frames := d.trace.frames,
             metadata := Dictionary.mapValues Metadata.toJson d.metadata, cause? }

/-- The entry of an error, if the texts end that it shows. -/
def ofError? (s : Store) (r : Ref) : Option Entry := ofErrorFrom? s (r + 1) r

end Entry

/-- The export of a group, if the entries of its members end. -/
def GroupReport.ofGroup? (s : Store) (now : Time.Instant) (members : List Ref) :
    Option GroupReport := do
  let entries ← members.mapM (Entry.ofError? s)
  some { count := entries.length, timestamp := Time.Rfc3339.writeSeconds now, entries }

namespace Report

/-- The report of an error, with causes to a depth, if the text of a cause ends of which only that
is shown. -/
def ofErrorFrom? (s : Store) (o : ReportOptions) (now : Time.Instant) : Nat → Ref → Option Report
  | 0, _ => none
  | fuel + 1, r =>
    match s.decorated? r with
    | none => (s.text? r).map plain
    | some d => do
      let cause? ← d.cause?.mapM (ofErrorFrom? s o now fuel)
      some (ofDecorated d o now cause?)

/-- The report of an error, if the text of a cause ends of which only that is shown. -/
def ofError? (s : Store) (o : ReportOptions) (now : Time.Instant) (r : Ref) : Option Report :=
  ofErrorFrom? s o now (r + 1) r

end Report

/-! ### Where the operations end -/

namespace Store

variable {s : Store} {r : Ref}

private theorem endsWhere_text? (s : Store) (r : Ref) :
    EndsWhere (s.text? r) (s.Ends r) (s.text r) := by
  intro t
  rw [Ends, text]
  cases s.text? r <;> simp [eq_comm]

/-- The text of an error ends only if that of its cause does. -/
theorem ends_cause {d : Decorated} (hd : s.decorated? r = some d) (h : s.Ends r) :
    ∀ c, d.cause? = some c → s.Ends c := by
  intro c hc
  rw [Ends, text?_decorated hd, hc, Option.isSome_map] at h
  exact h

/-- A report ends where the text of the error does. -/
theorem endsWhere_report? (s : Store) (r : Ref) :
    EndsWhere (s.report? r) (∀ d, s.decorated? r = some d → s.Ends r) (s.report r) := by
  rw [report?, report]
  cases hd : s.decorated? r with
  | none => exact (EndsWhere.value []).congr (by simp)
  | some d =>
    have hcause : EndsWhere (d.cause?.mapM s.text?) (∀ c, d.cause? = some c → s.Ends c)
        (d.cause?.map s.text) := .optional fun c _ => endsWhere_text? s c
    -- The text of the cause is part of that of the error, so it adds no condition.
    have hcond : s.Ends r ∧ (∀ l, d.logger? = some l → (∀ c, d.cause? = some c → s.Ends c) ∧ True) ∧
        True ↔ ∀ d', some d = some d' → s.Ends r := by
      simpa using fun h _ _ => ends_cause hd h
    have hlogged : EndsWhere
        (d.logger?.mapM fun l => do
          let causeText? ← d.cause?.mapM s.text?
          some (l.log .error "error occurred" (d.reportFields causeText?)))
        (∀ l, d.logger? = some l → (∀ c, d.cause? = some c → s.Ends c) ∧ True)
        (d.logger?.map fun l =>
          l.log .error "error occurred" (d.reportFields (d.cause?.map s.text))) :=
      .optional fun l _ => hcause.bind (.value _)
    dsimp only
    rw [← Option.toList_map]
    refine ((endsWhere_text? s r).bind ?_).congr hcond
    exact hlogged.bind (.value _)

variable {α : Type} {next? : Ref → Option Ref} {rs : List Ref}

/-- What is computed along a line, each value over the one behind it, ends where what is computed at
each error of the line does. The bound on the steps does not matter, if it is above the place of the
error. -/
theorem Line.endsWhere {f? : Nat → Ref → Option α} {layer? : Ref → Option α → Option α}
    {f : Ref → α} {layer : Ref → Option α → α} {c : Ref → Prop}
    (hf? : ∀ fuel r, f? (fuel + 1) r = (next? r).mapM (f? fuel) >>= layer? r)
    (hf : ∀ r, f r = layer r ((next? r).map f))
    (hlayer : ∀ r x?, EndsWhere (layer? r x?) (c r) (layer r x?))
    (hnext : ∀ r q, next? r = some q → q < r) (hl : Line next? r rs) {fuel : Nat} (h : r < fuel) :
    EndsWhere (f? fuel r) (∀ q ∈ rs, c q) (f r) := by
  induction hl generalizing fuel with
  | @last r hnone =>
    obtain ⟨fuel, rfl⟩ := Nat.exists_eq_add_of_lt h
    rw [hf?, hf, hnone]
    exact ((EndsWhere.value none).bind (hlayer r none)).congr (by simp)
  | @next r q rs hq _ ih =>
    obtain ⟨n, rfl⟩ := Nat.exists_eq_add_of_lt h
    have hrest := ih (Nat.lt_add_right n (hnext r q hq))
    rw [hf?, hf, hq]
    exact ((hrest.map some).bind (hlayer r _)).congr (by simp [and_comm])

end Store

namespace Entry

variable {s : Store} {r : Ref} {rs : List Ref}

private theorem ofErrorFrom?_succ (s : Store) (fuel : Nat) (r : Ref) :
    ofErrorFrom? s (fuel + 1) r =
      (s.exportedCause? r).mapM (ofErrorFrom? s fuel) >>= fun cause? =>
        (s.text? r).map fun _ => layer s r cause? := by
  unfold layer
  rw [ofErrorFrom?, Store.find?_eq_nearest?, Store.exportedCause?, Store.text]
  -- The causes are looked at after the text of the error itself, which makes no difference.
  cases s.text? r with
  | none => simp
  | some message => cases (s.nearest? r).bind s.decorated? <;> rfl

/-- The entry of an error ends where the texts of all errors that it tells of do. -/
theorem endsWhere_ofError? (hd : s.Descending) (hl : Store.Line s.exportedCause? r rs) :
    EndsWhere (ofError? s r) (∀ q ∈ rs, s.Ends q) (ofError s r) :=
  hl.endsWhere (ofErrorFrom?_succ s) (ofError_eq hd)
    (fun r x? => (Store.endsWhere_text? s r).map fun _ => layer s r x?)
    (fun _ _ hq => (Store.exportedCause?_spec hd hq).1) (Nat.lt_succ_self r)

end Entry

/-- The export of a group ends where the entries of all members do. -/
theorem GroupReport.endsWhere_ofGroup? {s : Store} (hd : s.Descending) (now : Time.Instant)
    (members : List Ref) :
    EndsWhere (ofGroup? s now members) (∀ m ∈ members, (Entry.ofError? s m).isSome)
      (ofGroup s now members) := by
  have hentry : ∀ m ∈ members,
      EndsWhere (Entry.ofError? s m) (Entry.ofError? s m).isSome (Entry.ofError s m) := by
    intro m _
    obtain ⟨rs, hl⟩ := Store.exists_line_exported hd m
    have hends := Entry.endsWhere_ofError? hd hl
    exact hends.congr hends.isSome_iff.symm
  refine ((EndsWhere.mapM hentry).bind ?_).congr (and_iff_left trivial)
  exact .value _

namespace Report

variable {s : Store} {o : ReportOptions} {now : Time.Instant} {r : Ref} {rs : List Ref}

/-- The report of an error over that of its cause, if the text ends that is shown alone. -/
def layer? (s : Store) (o : ReportOptions) (now : Time.Instant) (r : Ref) (cause? : Option Report) :
    Option Report :=
  match s.decorated? r with
  | none => (s.text? r).map plain
  | some d => some (ofDecorated d o now cause?)

private theorem ofErrorFrom?_succ (fuel : Nat) (r : Ref) :
    ofErrorFrom? s o now (fuel + 1) r =
      (s.reportedCause? r).mapM (ofErrorFrom? s o now fuel) >>= layer? s o now r := by
  unfold layer?
  rw [ofErrorFrom?, Store.reportedCause?]
  cases s.decorated? r <;> rfl

private theorem endsWhere_layer? (r : Ref) (cause? : Option Report) :
    EndsWhere (layer? s o now r cause?) (s.decorated? r = none → s.Ends r)
      (layer s o now r cause?) := by
  rw [layer?, layer]
  cases s.decorated? r with
  | none => exact ((Store.endsWhere_text? s r).map plain).congr (by simp)
  | some d => exact (EndsWhere.value _).congr (by simp)

/-- The report of an error ends where the text does that it shows alone, if any: that of the first
cause that is not decorated. -/
theorem endsWhere_ofError? (hd : s.Descending) (hl : Store.Line s.reportedCause? r rs) :
    EndsWhere (ofError? s o now r) (∀ q ∈ rs, s.decorated? q = none → s.Ends q)
      (ofError s o now r) :=
  hl.endsWhere ofErrorFrom?_succ (ofError_eq hd) endsWhere_layer?
    (fun _ _ hq => Store.lt_of_reportedCause? hd hq) (Nat.lt_succ_self r)

end Report

namespace Store

/-- All errors of a world have a text, and all operations that show texts end. -/
structure AllEnd (s : Store) : Prop where
  text : ∀ r < s.next, s.text? r = some (s.text r)
  report : ∀ r < s.next, s.report? r = some (s.report r)
  entry : ∀ r < s.next, Entry.ofError? s r = some (Entry.ofError s r)
  groupReport : ∀ now members, (∀ m ∈ members, m < s.next) →
    GroupReport.ofGroup? s now members = some (GroupReport.ofGroup s now members)
  output : ∀ o now, ∀ r < s.next, Report.ofError? s o now r = some (Report.ofError s o now r)

/-- Which texts end after a run, and with them the operations that show them. -/
structure Rendered (h : History) : Prop where
  /-- A text ends if what it includes goes on to an end. -/
  ends_iff_acc : ∀ r < (after h).next,
    (after h).Ends r ↔ Acc (fun q r => q ∈ (after h).shows r) r
  /-- It goes on without end only by way of a group that contains itself. -/
  ends_iff : ∀ r < (after h).next,
    (after h).Ends r ↔ ∀ t, (after h).Circular t → ¬ (r = t ∨ (after h).Includes r t)
  report : ∀ r, EndsWhere ((after h).report? r)
    (∀ d, (after h).decorated? r = some d → (after h).Ends r) ((after h).report r)
  entry : ∀ r, ∃ rs, Line (after h).exportedCause? r rs ∧
    EndsWhere (Entry.ofError? (after h) r) (∀ q ∈ rs, (after h).Ends q) (Entry.ofError (after h) r)
  groupReport : ∀ now members, EndsWhere (GroupReport.ofGroup? (after h) now members)
    (∀ m ∈ members, (Entry.ofError? (after h) m).isSome) (GroupReport.ofGroup (after h) now members)
  output : ∀ o now r, ∃ rs, Line (after h).reportedCause? r rs ∧
    EndsWhere (Report.ofError? (after h) o now r)
      (∀ q ∈ rs, (after h).decorated? q = none → (after h).Ends q)
      (Report.ofError (after h) o now r)
  wellFounded_iff : (WellFounded fun q r => q ∈ (after h).shows r) ↔ (after h).Grounded
  allEnd_iff : (after h).AllEnd ↔ (after h).Grounded
  /-- Every action of the run keeps inclusion well-founded but one that adds to a group the group
  itself, or an error that includes it. -/
  kept : ∀ a h₀, a :: h₀ <:+ h → (after h₀).Grounded →
    ((after (a :: h₀)).Grounded ↔ ¬ (after h₀).Closes a)
  grounded : (∀ a h₀, a :: h₀ <:+ h → ¬ (after h₀).Closes a) → (after h).Grounded

section

variable {h : History} {r : Ref}

private theorem allEnd_of_text (hp : Possible h)
    (htext : ∀ r < (after h).next, (after h).text? r = some ((after h).text r)) :
    (after h).AllEnd := by
  have hd := descending_after hp
  have hends : ∀ r < (after h).next, (after h).Ends r := by
    intro r hr
    rw [Ends, htext r hr]
    rfl
  have hentry : ∀ r < (after h).next,
      Entry.ofError? (after h) r = some (Entry.ofError (after h) r) := by
    intro r hr
    obtain ⟨rs, hl⟩ := exists_line_exported hd r
    refine (Entry.endsWhere_ofError? hd hl).eq_some fun q hq => ?_
    exact hends q (lt_next_of_reaches hp hr (hl.reaches hd q hq))
  refine ⟨htext, fun r hr => ?_, hentry, fun now members hmembers => ?_, fun o now r hr => ?_⟩
  · exact (endsWhere_report? _ r).eq_some fun _ _ => hends r hr
  · refine (GroupReport.endsWhere_ofGroup? hd now members).eq_some fun m hm => ?_
    rw [hentry m (hmembers m hm)]
    rfl
  · obtain ⟨rs, hl⟩ := exists_line_reported hd r
    obtain ⟨rs', hl'⟩ := exists_line_exported hd r
    refine (Report.endsWhere_ofError? hd hl).eq_some fun q hq _ => ?_
    have hmem : q ∈ rs' := (hl.isPrefix hd hl').subset hq
    exact hends q (lt_next_of_reaches hp hr (hl'.reaches hd q hmem))

private theorem grounded_of_allEnd (hp : Possible h) (hall : (after h).AllEnd) :
    (after h).Grounded := by
  intro r g hb hcircle
  have hr := lt_next_of_body? hb
  have hends : (after h).Ends r := by
    rw [Ends, hall.text r hr]
    rfl
  exact (isSome_text?_iff hp hr).mp hends r ⟨⟨g, hb⟩, hcircle⟩ (.inl rfl)

end

/-- In every world texts end that include no group that contains itself, and operations end that
show such texts only; and no group comes to contain itself but by an addition of what includes
it. -/
theorem rendered_of_possible {h : History} (hp : Possible h) : Rendered h where
  ends_iff_acc r hr := isSome_text?_iff_acc (sound_after hp) hr
  ends_iff r hr := isSome_text?_iff hp hr
  report r := endsWhere_report? _ r
  entry r := by
    have hd := descending_after hp
    obtain ⟨rs, hl⟩ := exists_line_exported hd r
    exact ⟨rs, hl, Entry.endsWhere_ofError? hd hl⟩
  groupReport now members := GroupReport.endsWhere_ofGroup? (descending_after hp) now members
  output o now r := by
    have hd := descending_after hp
    obtain ⟨rs, hl⟩ := exists_line_reported hd r
    exact ⟨rs, hl, Report.endsWhere_ofError? hd hl⟩
  wellFounded_iff := wellFounded_shows_iff hp
  allEnd_iff :=
    ⟨grounded_of_allEnd hp, fun hg => allEnd_of_text hp fun _ hr => text?_eq_some_text hp hg hr⟩
  kept a h₀ hs hg := grounded_cons_iff (possible_of_suffix hp hs) hg
  grounded hnone := grounded_of_not_closes hp hnone

/-- A group is added to itself and wrapped. -/
def selfHeld : History := [.wrap 0 "outer" [] 0, .append 0 (some 0), .hold 0, .addGroup]

/-- A group that contained itself and was then emptied has a text again. -/
theorem rendered_cleared : Possible (.clear 0 :: selfHeld) ∧ Rendered (.clear 0 :: selfHeld) :=
  ⟨by decide, rendered_of_possible (by decide)⟩

/-- The texts of the group and of its wrapper do not end, and no operation does that shows them. -/
theorem not_all_rendered :
    Possible selfHeld ∧ (¬ WellFounded fun q r => q ∈ (after selfHeld).shows r) ∧
      (after selfHeld).text? 0 = none ∧ (after selfHeld).text? 1 = none ∧
      (after selfHeld).report? 1 = none ∧ Entry.ofError? (after selfHeld) 1 = none ∧
      GroupReport.ofGroup? (after selfHeld) ⟨0, 0⟩ [0] = none ∧
      Report.ofError? (after selfHeld) default ⟨0, 0⟩ 1 = none := by
  have hself : (0 : Ref) ∈ (after selfHeld).shows 0 := by decide
  refine ⟨by decide, fun hwf => hwf.asymmetric 0 0 hself hself, ?_⟩
  exact ⟨rfl, rfl, rfl, rfl, rfl, rfl⟩

end Store

end Mishap
