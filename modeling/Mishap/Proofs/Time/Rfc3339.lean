import Mishap.Proofs.Text.Digits
import Mishap.Proofs.Time.Calendar
import Mishap.Time.Rfc3339
import Mathlib.Data.List.TakeWhile

/-!
# Written times read back

The text of a time is read as that time, in any year that a time may have (`read_write`), and its
text in whole seconds as the time without its fraction (`read_writeSeconds`). Each field is read
back before anything that ends it.
-/

namespace Mishap.Time

namespace Rfc3339

/-! ### Numbers -/

/-- No digit is a blank. -/
theorem isBlank_of_isDigit {c : Char} (hc : Text.isDigit c = true) : Text.isBlank c = false :=
  Text.of_isDigit (P := fun c => Text.isBlank c = false) (by decide) hc

/-- No blank is passed over before digits. -/
theorem skipBlanks_digits {ds : List Char} (hne : ds ≠ []) (hds : ∀ c ∈ ds, Text.isDigit c = true)
    (s : List Char) : Text.skipBlanks (ds ++ s) = ds ++ s := by
  cases ds with
  | nil => exact absurd rfl hne
  | cons c ds =>
    have hc := isBlank_of_isDigit (hds c List.mem_cons_self)
    rw [List.cons_append, Text.skipBlanks, List.dropWhile_cons_of_neg (by simp [hc])]

/-- A run of digits is read as the number that it denotes. -/
theorem digits_run (width : Option Nat) {ds s : List Char} (hne : ds ≠ [])
    (hds : ∀ c ∈ ds, Text.isDigit c = true)
    (hrun : (match width with | some w => (ds ++ s).take w | none => ds ++ s).takeWhile
      Text.isDigit = ds)
    (hn : Text.decimalValue ds < 0x8000000000000000) :
    digits width (ds ++ s) = .ok (Text.decimalValue ds, s) := by
  cases ds with
  | nil => exact absurd rfl hne
  | cons c ds =>
    have hc := hds c List.mem_cons_self
    have hdrop : (c :: (ds ++ s)).drop (c :: ds).length = s := List.drop_left
    rw [List.cons_append] at hrun ⊢
    cases width <;> simp only [digits, if_pos hc, hrun, if_pos hn, hdrop]

/-- A field of a fixed width is read whatever follows. -/
theorem digits_zeroPadded {width n : Nat} (hwidth : 0 < width) (hn : n < 10 ^ width)
    (hlimit : n < 0x8000000000000000) (s : List Char) :
    digits (some width) (Text.zeroPadded width n ++ s) = .ok (n, s) := by
  have hall := fun c => @Text.isDigit_of_mem_zeroPadded width n c
  have hvalue := Text.decimalValue_zeroPadded width n
  have hrun : ((Text.zeroPadded width n ++ s).take width).takeWhile Text.isDigit =
      Text.zeroPadded width n := by
    rw [List.take_left' (Text.length_zeroPadded hwidth hn), List.takeWhile_eq_self_iff]
    exact hall
  have hread := digits_run (some width) (Text.zeroPadded_ne_nil width n) hall hrun
    (by rwa [hvalue])
  rwa [hvalue] at hread

/-- The digits of a number end before what is no digit. -/
theorem takeWhile_zeroPadded (width n : Nat) {c : Char} (hc : Text.isDigit c = false)
    (s : List Char) :
    (Text.zeroPadded width n ++ c :: s).takeWhile Text.isDigit = Text.zeroPadded width n := by
  have hall := fun c => @Text.isDigit_of_mem_zeroPadded width n c
  rw [List.takeWhile_append_of_pos hall, List.takeWhile_cons_of_neg (by simp [hc]),
    List.append_nil]

/-- A number of any width is read up to what is no digit. -/
theorem digits_none_zeroPadded {width n : Nat} (hlimit : n < 0x8000000000000000) {c : Char}
    (hc : Text.isDigit c = false) (s : List Char) :
    digits none (Text.zeroPadded width n ++ c :: s) = .ok (n, c :: s) := by
  have hall := fun c => @Text.isDigit_of_mem_zeroPadded width n c
  have hvalue := Text.decimalValue_zeroPadded width n
  have hread := digits_run none (Text.zeroPadded_ne_nil width n) hall
    (takeWhile_zeroPadded width n hc s) (by rwa [hvalue])
  rwa [hvalue] at hread

/-! ### Fields -/

/-- A field between its bounds is read whatever follows. -/
theorem fieldBetween_zeroPadded {low high n : Nat} (hlow : low ≤ n) (hhigh : n ≤ high)
    (hwidth : high < 100) (s : List Char) :
    fieldBetween low high (Text.zeroPadded 2 n ++ s) = .ok (n, s) := by
  have hskip := skipBlanks_digits (Text.zeroPadded_ne_nil 2 n)
    (fun c => @Text.isDigit_of_mem_zeroPadded 2 n c) s
  rw [fieldBetween, field, hskip, digits_zeroPadded (by decide) (by omega) (by omega)]
  exact if_pos ⟨hlow, hhigh⟩

private theorem mark_cons {c : Char} (hc : Text.isBlank c = false) (s : List Char) :
    mark c (c :: s) = .ok s := by
  rw [mark, Text.skipBlanks, List.dropWhile_cons_of_neg (by simp [hc])]
  exact if_pos rfl

/-- A year is read up to the dash behind it, with or without a sign. -/
theorem year_yearChars {y : Int} (hlow : -0x80000000 ≤ y) (hhigh : y < 0x80000000)
    (s : List Char) : year (yearChars y ++ '-' :: s) = .ok (y, '-' :: s) := by
  have hsigned : digits none (Text.zeroPadded 4 y.natAbs ++ '-' :: s) = .ok (y.natAbs, '-' :: s) :=
    digits_none_zeroPadded (by omega) (by decide) s
  rw [yearChars]
  split
  · next hplain =>
    have hall := fun c => @Text.isDigit_of_mem_zeroPadded 4 y.toNat c
    have hskip := skipBlanks_digits (Text.zeroPadded_ne_nil 4 y.toNat) hall ('-' :: s)
    have hread : digits (some 4) (Text.zeroPadded 4 y.toNat ++ '-' :: s) =
        .ok (y.toNat, '-' :: s) := digits_zeroPadded (by decide) (by omega) (by omega) _
    rw [year, hskip]
    cases hd : Text.zeroPadded 4 y.toNat with
    | nil => exact absurd hd (Text.zeroPadded_ne_nil 4 y.toNat)
    | cons c ds =>
      rw [hd] at hread hall
      have hsign : c ≠ '-' ∧ c ≠ '+' :=
        Text.of_isDigit (P := fun c => c ≠ '-' ∧ c ≠ '+') (by decide) (hall c List.mem_cons_self)
      rw [List.cons_append] at hread ⊢
      split
      · next heq => exact absurd (List.cons.inj heq).1 hsign.1
      · next heq => exact absurd (List.cons.inj heq).1 hsign.2
      · have hback : (y.toNat : Int) = y := by omega
        simp only [hread, bind, Except.bind, hback, hlow, hhigh, and_self, if_true]
  · by_cases hneg : y < 0
    · have hback : -(y.natAbs : Int) = y := by omega
      rw [if_pos hneg, List.cons_append, year, Text.skipBlanks,
        List.dropWhile_cons_of_neg (by decide)]
      simp only [hsigned, bind, Except.bind, hback, hlow, hhigh, and_self, if_true]
    · have hback : (y.natAbs : Int) = y := by omega
      rw [if_neg hneg, List.cons_append, year, Text.skipBlanks,
        List.dropWhile_cons_of_neg (by decide)]
      simp only [hsigned, bind, Except.bind, hback, hlow, hhigh, and_self, if_true]

/-- A fraction with up to nine digits is read as nanoseconds. -/
theorem fraction_zeroPadded {width n : Nat} (hwidth : 0 < width) (hnine : width ≤ 9)
    (hn : n < 10 ^ width) {c : Char} (hc : Text.isDigit c = false) (s : List Char) :
    fraction ('.' :: (Text.zeroPadded width n ++ c :: s)) =
      .ok (n * Nat.pow 10 (9 - width), c :: s) := by
  have hall := fun c => @Text.isDigit_of_mem_zeroPadded width n c
  have hvalue := Text.decimalValue_zeroPadded width n
  have hlength := Text.length_zeroPadded hwidth hn
  have hrun := takeWhile_zeroPadded width n hc s
  have hnine' : (Text.zeroPadded width n).take 9 = Text.zeroPadded width n :=
    List.take_of_length_le (by omega)
  have hrun' : ((Text.zeroPadded width n ++ c :: s).take 9).takeWhile Text.isDigit =
      Text.zeroPadded width n := by
    rw [List.take_append, hnine', List.takeWhile_append_of_pos hall]
    rcases hk : 9 - (Text.zeroPadded width n).length with - | k
    · rw [List.take_zero, List.takeWhile_nil, List.append_nil]
    · rw [List.take_succ_cons, List.takeWhile_cons_of_neg (by simp [hc]), List.append_nil]
  have hlimit : n < 0x8000000000000000 :=
    Nat.lt_of_lt_of_le hn (Nat.le_trans (Nat.pow_le_pow_right (by decide) hnine) (by decide))
  have hread := digits_run (some 9) (Text.zeroPadded_ne_nil width n) hall hrun'
    (by rwa [hvalue])
  rw [fraction]
  simp only [hread, bind, Except.bind, hrun, hnine', hvalue, hlength]
  rw [List.drop_left' hlength]

/-- Whether or not a fraction of a second is written, it is read back. -/
theorem fraction_fractionChars {nanos : Nat} (hnanos : nanos < 1000000000) (s : List Char) :
    fraction (fractionChars nanos ++ 'Z' :: s) = .ok (nanos, 'Z' :: s) := by
  have hmod : nanos % 1000000000 = nanos := Nat.mod_eq_of_lt hnanos
  have hdigits : ∀ {width n : Nat} (scale : Nat), 0 < width → width ≤ 9 → n < 10 ^ width →
      scale = Nat.pow 10 (9 - width) → n * scale = nanos →
        fraction ('.' :: Text.zeroPadded width n ++ 'Z' :: s) = .ok (nanos, 'Z' :: s) := by
    rintro width n _ hwidth hnine hn rfl hscale
    rw [List.cons_append, fraction_zeroPadded hwidth hnine hn (by decide), hscale]
  simp only [fractionChars, hmod]
  split
  · next hzero =>
    rw [hzero]
    rfl
  split
  · exact hdigits 1000000 (by decide) (by decide) (by omega) (by decide) (by omega)
  split
  · exact hdigits 1000 (by decide) (by decide) (by omega) (by decide) (by omega)
  · exact hdigits 1 (by decide) (by decide) (by omega) (by decide) (by omega)

/-! ### Times -/

/-- The fields of the text of a time are read back, with whatever fraction it has. -/
theorem fields_text {c : Civil} (hdate : c.date.isValid = true) (hhour : c.hour < 24)
    (hminute : c.minute < 60) (hsecond : c.second < 60) (hwhole : c.nanos < 1000000000)
    {nanos : Nat} (hnanos : nanos < 1000000000) :
    fields (dateChars c.date ++ 'T' :: clockChars c ++ fractionChars nanos ++ ['Z']) =
      .ok (({ c with nanos }, 0), []) := by
  simp only [Date.isValid, Bool.and_eq_true, decide_eq_true_eq] at hdate
  obtain ⟨⟨⟨⟨⟨hminYear, hmaxYear⟩, hminMonth⟩, hmaxMonth⟩, hminDay⟩, hmaxDay⟩ := hdate
  have hlow : -0x80000000 ≤ c.date.year := Int.le_trans (by decide) hminYear
  have hhigh : c.date.year < 0x80000000 := Int.lt_of_le_of_lt hmaxYear (by decide)
  have hday : c.date.day ≤ 31 := by
    refine Nat.le_trans hmaxDay ?_
    unfold daysInMonth
    split
    · split <;> decide
    all_goals decide
  have hdash : ∀ s, mark '-' ('-' :: s) = .ok s := mark_cons (by decide)
  have hcolon : ∀ s, mark ':' (':' :: s) = .ok s := mark_cons (by decide)
  have hseparator : ∀ s, separator ('T' :: s) = .ok s := fun s => rfl
  have hoffset : offset (Text.skipBlanks ['Z']) = .ok (0, []) := rfl
  have hleap : c.second / 60 = 0 := Nat.div_eq_of_lt hsecond
  have hwhole' : c.nanos / 1000000000 = 0 := Nat.div_eq_of_lt hwhole
  simp only [dateChars, clockChars, List.append_assoc, List.cons_append, hwhole', Nat.add_zero]
  simp only [fields, bind, Except.bind, year_yearChars hlow hhigh, hdash,
    fieldBetween_zeroPadded hminMonth hmaxMonth (by decide),
    fieldBetween_zeroPadded hminDay hday (by decide), hseparator,
    fieldBetween_zeroPadded (Nat.zero_le _) (Nat.le_of_lt_succ hhour) (by decide), hcolon,
    fieldBetween_zeroPadded (Nat.zero_le _) (Nat.le_of_lt_succ hminute) (by decide),
    fieldBetween_zeroPadded (Nat.zero_le _) (Nat.le_of_lt hsecond) (by decide),
    fraction_fractionChars hnanos, hoffset, hleap, Nat.sub_zero, Nat.zero_mul, Nat.add_zero]

end Rfc3339

namespace Instant

/-- A time that the clock can show: its year is one that a time may have, and it is no leap
second. -/
structure Valid (t : Instant) : Prop where
  inRange : t.inRange = true
  nanos : t.nanos < 1000000000

/-- The time without its fraction of a second. -/
def whole (t : Instant) : Instant := { t with nanos := 0 }

/-- The fields that the clock shows at a time are the fields of that time. -/
theorem toInstant_civil (t : Instant) : t.civil.toInstant = t := by
  have hnonneg := Int.emod_nonneg t.seconds (b := 86400) (by decide)
  rw [Instant.civil, Civil.toInstant, Date.toDays_ofDays]
  generalize hrest : (t.seconds % 86400).toNat = rest
  have hcast : t.seconds / 86400 * 86400 + (rest / 3600 : Nat) * 3600 +
      (rest / 60 % 60 : Nat) * 60 + (rest % 60 : Nat) = t.seconds := by
    omega
  rw [hcast]

/-- The clock shows a date at each time whose year a time may have. -/
theorem isValid_civil {t : Instant} (h : t.inRange = true) : t.civil.date.isValid = true := by
  simp only [inRange, Bool.and_eq_true, decide_eq_true_eq] at h
  exact Date.isValid_ofDays (Int.le_ediv_of_mul_le (by decide) h.1)
    (Int.ediv_lt_of_lt_mul (by decide) h.2)

end Instant

namespace Rfc3339

/-- The text of a time is read as that time, with whatever fraction is written. -/
theorem read_text {t : Instant} (h : t.Valid) {nanos : Nat} (hnanos : nanos < 1000000000) :
    read (String.ofList (dateChars t.civil.date ++ 'T' :: clockChars t.civil ++
      fractionChars nanos ++ ['Z'])) = .ok { t with nanos } := by
  have hdate := Instant.isValid_civil h.inRange
  have hrest : (t.seconds % 86400).toNat < 86400 := by omega
  have hfields := fields_text (c := t.civil) hdate (Nat.div_lt_of_lt_mul hrest)
    (Nat.mod_lt _ (by decide)) (Nat.mod_lt _ (by decide)) h.nanos hnanos
  have hback : Civil.toInstant { t.civil with nanos } = { t with nanos } :=
    Instant.toInstant_civil { t with nanos }
  have hrange : Instant.inRange { t with nanos } = true := h.inRange
  rw [read, String.toList_ofList, hfields]
  simp [bind, Except.bind, hdate, hback, hrange, Text.skipBlanks]

/-- A time is read back from its text. -/
theorem read_write {t : Instant} (h : t.Valid) : read (write t) = .ok t := read_text h h.nanos

/-- A time in whole seconds is read back without its fraction. -/
theorem read_writeSeconds {t : Instant} (h : t.Valid) : read (writeSeconds t) = .ok t.whole := by
  have hread := read_text h (Nat.zero_lt_succ 999999999)
  have hnone : fractionChars 0 = [] := by decide
  rwa [hnone, List.append_nil] at hread

end Rfc3339

end Mishap.Time
