import Mishap.Proofs.Text.Digits
import Mishap.Time.Span

/-!
# Written spans read back

Each written part of a span is read as an amount of its unit, and the amounts add up to the span
again, no sum on the way leaving its range (`read?_text`). A year is no whole number of months, nor
a month of days: what one unit leaves over, the smaller ones make up.
-/

namespace Mishap.Time.Span

/-! ### Parts -/

/-- The name of the unit in a written part. -/
def unitChars (p : Nat × String × Bool) : List Char :=
  p.2.1.toList ++ if p.2.2 && 1 < p.1 then ['s'] else []

private theorem toList_partText (p : Nat × String × Bool) :
    (partText p).toList = Text.decimal p.1 ++ unitChars p := by
  rw [partText, unitChars, String.toList_append, String.toList_append, String.toList_ofList,
    List.append_assoc]
  split <;> rfl

/-- A written part is an amount of a unit. -/
structure Names (p : Nat × String × Bool) (u : SpanUnit) : Prop where
  amount : p.1 < secondsLimit
  letters : ∀ c ∈ unitChars p, isUnitLetter c = true
  unit : SpanUnit.ofName? (unitChars p) = some u

/-- Parts lead from one span to another, each added as an amount of its unit. -/
inductive AddsUp : Span → List (Nat × String × Bool) → Span → Prop
  | done (s : Span) : AddsUp s [] s
  | part {p : Nat × String × Bool} {u : SpanUnit} {ps : List (Nat × String × Bool)}
    {s s' s'' : Span} (names : Names p u) (adds : s.addUnits? p.1 u = some s')
    (rest : AddsUp s' ps s'') : AddsUp s (p :: ps) s''

/-! ### Reading parts -/

/-- More digits of a number are read as far as the number stays in range. -/
theorem readFrom_whole_digits {ds : List Char} (hds : ∀ c ∈ ds, Text.isDigit c = true) {n : Nat}
    (hn : ds.foldl (fun n c => 10 * n + Text.digitValue c) n < secondsLimit) (s : Span)
    (rest : List Char) :
    readFrom (.whole n) s (ds ++ rest) =
      readFrom (.whole (ds.foldl (fun n c => 10 * n + Text.digitValue c) n)) s rest := by
  induction ds generalizing n with
  | nil => rfl
  | cons c ds ih =>
    have hnext := Text.le_foldl_digits ds (10 * n + Text.digitValue c)
    rw [List.foldl_cons] at hn
    rw [List.cons_append, readFrom, if_pos (hds c List.mem_cons_self), shift?,
      if_pos (Nat.lt_of_le_of_lt hnext hn), Option.bind_some]
    exact ih (fun d hd => hds d (List.mem_cons_of_mem c hd)) hn

/-- The number before a unit is read. -/
theorem readFrom_decimal {n : Nat} (hn : n < secondsLimit) (s : Span) (rest : List Char) :
    readFrom .start s (Text.decimal n ++ rest) = readFrom (.whole n) s rest := by
  have hdigits := fun c => @Text.isDigit_of_mem_decimal n c
  have hvalue := Text.decimalValue_decimal n
  cases hd : Text.decimal n with
  | nil => exact absurd hd (Text.decimal_ne_nil n)
  | cons c ds =>
    rw [hd] at hdigits hvalue
    rw [Text.decimalValue, List.foldl_cons, Nat.mul_zero, Nat.zero_add] at hvalue
    have hread := readFrom_whole_digits (fun d hd => hdigits d (List.mem_cons_of_mem c hd))
      (hvalue ▸ hn) s rest
    rw [List.cons_append, readFrom, if_pos (hdigits c List.mem_cons_self), hread, hvalue]

/-- A letter of a unit name is neither a digit nor a blank. -/
theorem not_digit_of_isUnitLetter {c : Char} (h : isUnitLetter c = true) :
    Text.isDigit c = false ∧ Text.isBlank c = false := by
  have hcode : 0x41 ≤ c.toNat ∧ c.toNat ≤ 0x7A ∨ c = 'µ' := by
    simp only [isUnitLetter, Bool.or_eq_true, Bool.and_eq_true, decide_eq_true_eq, beq_iff_eq,
      Char.le_def, UInt32.le_iff_toNat_le] at h
    rcases h with (⟨hlow, hhigh⟩ | ⟨hlow, hhigh⟩) | hmicro
    · exact .inl ⟨Nat.le_trans (by decide) hlow, hhigh⟩
    · exact .inl ⟨hlow, Nat.le_trans hhigh (by decide)⟩
    · exact .inr hmicro
  rcases hcode with ⟨hlow, hhigh⟩ | rfl
  · constructor
    · simp only [Text.isDigit, Bool.and_eq_false_iff, decide_eq_false_iff_not, Char.le_def,
        UInt32.le_iff_toNat_le]
      exact .inr (Nat.not_le.mpr (Nat.lt_of_lt_of_le (by decide) hlow))
    · simp only [Text.isBlank, Text.blankRanges, List.any_cons, List.any_nil, Bool.or_false,
        Bool.or_eq_false_iff, Bool.and_eq_false_iff, decide_eq_false_iff_not]
      omega
  · decide

/-- The letters of a unit name are collected. -/
theorem readFrom_letters {w : List Char} (hw : ∀ c ∈ w, isUnitLetter c = true) (n : Nat)
    (name : List Char) (s : Span) (rest : List Char) :
    readFrom (.unit n none name) s (w ++ rest) =
      readFrom (.unit n none (w.reverse ++ name)) s rest := by
  induction w generalizing name with
  | nil => rfl
  | cons c w ih =>
    have hc := hw c List.mem_cons_self
    obtain ⟨hdigit, hblank⟩ := not_digit_of_isUnitLetter hc
    rw [List.cons_append, readFrom, if_neg (by simp [hdigit]), if_neg (by simp [hblank]),
      if_pos hc, ih fun d hd => hw d (List.mem_cons_of_mem c hd)]
    simp

/-- A written part is read up to the end of its unit name. -/
theorem readFrom_partText {p : Nat × String × Bool} {u : SpanUnit} (h : Names p u) (s : Span)
    (rest : List Char) :
    readFrom .start s ((partText p).toList ++ rest) =
      readFrom (.unit p.1 none (unitChars p).reverse) s rest := by
  have hletters := h.letters
  rw [toList_partText, List.append_assoc, readFrom_decimal h.amount]
  cases hunit : unitChars p with
  | nil =>
    have hnone : SpanUnit.ofName? [] = some u := hunit ▸ h.unit
    exact absurd hnone nofun
  | cons c w =>
    rw [hunit] at hletters
    have hc := hletters c List.mem_cons_self
    obtain ⟨hdigit, hblank⟩ := not_digit_of_isUnitLetter hc
    rw [List.cons_append, readFrom, if_neg (by simp [hdigit]), if_neg (by simp [hblank]),
      if_pos hc, readFrom_letters fun d hd => hletters d (List.mem_cons_of_mem c hd)]
    simp

/-- At the end of a unit name its amount is added. -/
theorem close?_eq {p : Nat × String × Bool} {u : SpanUnit} (h : Names p u) (s : Span) :
    close? s p.1 none (unitChars p).reverse = s.addUnits? p.1 u := by
  rw [close?, List.reverse_reverse, h.unit]
  exact Option.bind_fun_some _

/-- Parts that add up to a span are read as that span. -/
theorem AddsUp.readFrom_eq {s t : Span} {ps : List (Nat × String × Bool)} (h : AddsUp s ps t) :
    readFrom .start s (" ".intercalate (ps.map partText)).toList = some t := by
  induction h with
  | done s => rfl
  | @part p u ps s s' t names adds rest ih =>
    cases ps with
    | nil =>
      rw [List.map_singleton, String.intercalate_singleton,
        ← List.append_nil (partText p).toList, readFrom_partText names, readFrom, close?_eq names,
        adds]
      exact ih
    | cons q ps =>
      have hspace : Text.isDigit ' ' = false ∧ Text.isBlank ' ' = true := by decide
      rw [List.map_cons, List.map_cons, String.intercalate_cons_cons, String.toList_append,
        String.toList_append, List.append_assoc, readFrom_partText names]
      change readFrom _ s (' ' :: _) = _
      rw [readFrom, if_neg (by simp [hspace]), if_pos hspace.2, close?_eq names, adds,
        Option.bind_some]
      exact ih

/-! ### Adding up -/

private theorem add?_of_lt {s : Span} {seconds nanos : Nat} (hnanos : s.nanos + nanos < 1000000000)
    (hsum : s.seconds + seconds < secondsLimit) :
    s.add? seconds nanos = some ⟨s.seconds + seconds, s.nanos + nanos⟩ := by
  have hlimit : 1000000000 < secondsLimit := by decide
  have hcarry : (s.nanos + nanos) / 1000000000 = 0 := Nat.div_eq_of_lt hnanos
  simp only [add?, hcarry, Nat.mod_eq_of_lt hnanos, Nat.add_zero]
  exact if_pos ⟨Nat.lt_trans hnanos hlimit, hsum⟩

/-- Whole seconds are added as far as their sum stays in range. -/
theorem addUnits?_coarse {u : SpanUnit} (hu : u.isFine = false) {s : Span} {n : Nat}
    (hnanos : s.nanos < 1000000000) (hsum : s.seconds + n * u.size < secondsLimit) :
    s.addUnits? n u = some ⟨s.seconds + n * u.size, s.nanos⟩ := by
  have htimes : times? n u.size = some (n * u.size) := if_pos (by omega)
  rw [addUnits?, htimes]
  change (if u.isFine = true then _ else s.add? (n * u.size) 0) = _
  rw [hu, if_neg Bool.false_ne_true]
  exact add?_of_lt hnanos hsum

/-- Parts of a second are added as far as they stay below a second. -/
theorem addUnits?_fine {u : SpanUnit} (hu : u.isFine = true) {s : Span} {n : Nat}
    (hseconds : s.seconds < secondsLimit) (hsum : s.nanos + n * u.size < 1000000000) :
    s.addUnits? n u = some ⟨s.seconds, s.nanos + n * u.size⟩ := by
  have hlimit : 1000000000 < secondsLimit := by decide
  have htimes : times? n u.size = some (n * u.size) := if_pos (by omega)
  rw [addUnits?, htimes]
  change (if u.isFine = true then s.add? 0 (n * u.size) else _) = _
  rw [hu, if_pos rfl]
  exact add?_of_lt hsum hseconds

/-- Whatever is added, the sum is in range. -/
theorem valid_of_addUnits? {s t : Span} {n : Nat} {u : SpanUnit} (h : s.addUnits? n u = some t) :
    t.Valid := by
  have hadd : ∀ seconds nanos, s.add? seconds nanos = some t → t.Valid := by
    intro seconds nanos h
    obtain ⟨hsum, ht⟩ := Option.ite_none_right_eq_some.mp h
    cases ht
    exact ⟨hsum.2, Nat.mod_lt _ (by decide)⟩
  obtain ⟨amount, -, h⟩ := Option.bind_eq_some_iff.mp h
  split at h
  · exact hadd _ _ h
  · exact hadd _ _ h

/-- No amount of a unit adds nothing. -/
theorem Valid.addUnits?_zero {s : Span} (hs : s.Valid) (u : SpanUnit) :
    s.addUnits? 0 u = some s := by
  obtain ⟨hseconds, hnanos⟩ := hs
  cases hu : u.isFine with
  | false => simpa using addUnits?_coarse hu (n := 0) hnanos (by simpa using hseconds)
  | true => simpa using addUnits?_fine hu (n := 0) hseconds (by simpa using hnanos)

/-- Parts of which there is nothing may be left out. -/
theorem AddsUp.filter {s t : Span} {ps : List (Nat × String × Bool)} (h : AddsUp s ps t)
    (hs : s.Valid) : AddsUp s (ps.filter (0 < ·.1)) t := by
  induction h with
  | done s => exact .done s
  | @part p u ps s s' t names adds rest ih =>
    have hrest := ih (valid_of_addUnits? adds)
    by_cases hzero : p.1 = 0
    · rw [hzero, hs.addUnits?_zero] at adds
      cases adds
      rwa [List.filter_cons_of_neg (by simp [hzero])]
    · rw [List.filter_cons_of_pos (by simpa using Nat.pos_of_ne_zero hzero)]
      exact .part names adds hrest

/-! ### The parts of a span -/

private theorem names_plain {n : Nat} {name : String} {u : SpanUnit} (hn : n < secondsLimit)
    (hletters : name.toList.all isUnitLetter = true)
    (hname : SpanUnit.ofName? name.toList = some u) : Names (n, name, false) u := by
  have hchars : unitChars (n, name, false) = name.toList := by simp [unitChars]
  exact ⟨hn, hchars ▸ List.all_eq_true.mp hletters, hchars ▸ hname⟩

/-- A unit with a plural is known by both of its names. -/
theorem names_counted {n : Nat} {name : String} {u : SpanUnit} (hn : n < secondsLimit)
    (hletters : (name.toList ++ ['s']).all isUnitLetter = true)
    (hone : SpanUnit.ofName? name.toList = some u)
    (hmore : SpanUnit.ofName? (name.toList ++ ['s']) = some u) : Names (n, name, true) u := by
  by_cases hn' : 1 < n
  · have hchars : unitChars (n, name, true) = name.toList ++ ['s'] := by simp [unitChars, hn']
    exact ⟨hn, hchars ▸ List.all_eq_true.mp hletters, hchars ▸ hmore⟩
  · have hchars : unitChars (n, name, true) = name.toList := by simp [unitChars, hn']
    exact ⟨hn, fun c hc => List.all_eq_true.mp hletters c (List.mem_append_left _ (hchars ▸ hc)),
      hchars ▸ hone⟩

/-- The written parts of a span add up to it. -/
theorem addsUp_parts {s : Span} (hs : s.Valid) : AddsUp ⟨0, 0⟩ s.parts s := by
  obtain ⟨hseconds, hnanos⟩ := hs
  have hlimit : 1000000000 < secondsLimit := by decide
  have hcoarse : ∀ {p u ps seconds t}, Names p u → u.isFine = false →
      seconds + p.1 * u.size < secondsLimit → AddsUp ⟨seconds + p.1 * u.size, 0⟩ ps t →
        AddsUp ⟨seconds, 0⟩ (p :: ps) t :=
    fun names hu hsum rest => .part names (addUnits?_coarse hu (Nat.zero_lt_succ _) hsum) rest
  have hfine : ∀ {p u ps seconds nanos t}, Names p u → u.isFine = true →
      seconds < secondsLimit → nanos + p.1 * u.size < 1000000000 →
        AddsUp ⟨seconds, nanos + p.1 * u.size⟩ ps t → AddsUp ⟨seconds, nanos⟩ (p :: ps) t :=
    fun names hu hle hsum rest => .part names (addUnits?_fine hu hle hsum) rest
  have hdone : ∀ seconds nanos, seconds = s.seconds → nanos = s.nanos →
      AddsUp ⟨seconds, nanos⟩ [] s := by
    rintro _ _ rfl rfl
    exact .done s
  refine hcoarse (u := .year) (names_counted (by omega) rfl rfl rfl) rfl ?_ <|
    hcoarse (u := .month) (names_counted (by omega) rfl rfl rfl) rfl ?_ <|
    hcoarse (u := .day) (names_counted (by omega) rfl rfl rfl) rfl ?_ <|
    hcoarse (u := .hour) (names_plain (by omega) rfl rfl) rfl ?_ <|
    hcoarse (u := .minute) (names_plain (by omega) rfl rfl) rfl ?_ <|
    hcoarse (u := .second) (names_plain (by omega) rfl rfl) rfl ?_ <|
    hfine (u := .millisecond) (names_plain (by omega) rfl rfl) rfl ?_ ?_ <|
    hfine (u := .microsecond) (names_plain (by omega) rfl rfl) rfl ?_ ?_ <|
    hfine (u := .nanosecond) (names_plain (by omega) rfl rfl) rfl ?_ ?_ <|
    hdone _ _ ?_ ?_
  -- What the larger units leave over, the smaller ones make up, so that no sum exceeds the span.
  all_goals
    simp only [SpanUnit.size]
    omega

/-! ### Whole texts -/

/-- Blanks alone add nothing. -/
theorem readFrom_blanks {w : List Char} (hw : ∀ c ∈ w, Text.isBlank c = true) (s : Span) :
    readFrom .start s w = some s := by
  induction w with
  | nil => rfl
  | cons c w ih =>
    have hblank := hw c List.mem_cons_self
    have hdigit : ¬ Text.isDigit c = true := fun hdigit =>
      Text.of_isDigit (P := fun c => Text.isBlank c ≠ true) (by decide) hdigit hblank
    rw [readFrom, if_neg hdigit, if_pos hblank]
    exact ih fun d hd => hw d (List.mem_cons_of_mem c hd)

/-- A written span is read back. -/
theorem read?_text {s : Span} (hs : s.Valid) : read? s.text = some s := by
  have hparts := (addsUp_parts hs).filter (s := ⟨0, 0⟩) ⟨by decide, by decide⟩
  rw [text]
  cases hps : s.parts.filter (0 < ·.1) with
  | nil =>
    rw [hps] at hparts
    cases hparts
    rfl
  | cons p ps =>
    rw [hps] at hparts
    have hread := hparts.readFrom_eq
    dsimp only
    generalize " ".intercalate ((p :: ps).map partText) = written at hread
    have hnumber : written ≠ "0" := by
      rintro rfl
      exact absurd hread nofun
    have hpart : ¬ written.toList.all Text.isBlank = true := by
      intro hblank
      rw [readFrom_blanks (List.all_eq_true.mp hblank)] at hread
      cases hread
      exact absurd hps nofun
    rw [read?, if_neg hnumber, if_neg hpart, hread]

end Mishap.Time.Span
