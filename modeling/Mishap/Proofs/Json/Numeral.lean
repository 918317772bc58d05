import Mishap.Proofs.Json.Token

/-!
# Numerals

The numbers of JSON text: a sign, a whole part without needless zeros, a fraction and an exponent.
Whatever follows a numeral, the reader takes all of it and makes the same of it
(`Reader.settles_number`), and it is skipped as a whole (`Reader.skipNumber_append`). Each written
number is a numeral (`numeral_numberChars`).
-/

namespace Mishap.Json

/-- What a reader makes of a part of a text: what the part stands for, going on behind it, or
nothing, refusing the text. -/
def Gives {α : Type} (r : Except Fault (α × List Char)) (x? : Option α) (s : List Char) : Prop :=
  match x? with
  | some x => r = .ok (x, s)
  | none => ∃ f, r = .error f

/-- What is made of a part does not depend on what follows it. -/
theorem Gives.map {α β : Type} {r : Except Fault (α × List Char)} {x? : Option α} {s : List Char}
    (h : Gives r x? s) (f : α → β) : Gives (r.map fun p => (f p.1, p.2)) (x?.map f) s := by
  cases x? with
  | some x =>
    have hread : r = .ok (x, s) := h
    rw [hread]
    rfl
  | none =>
    obtain ⟨e, rfl⟩ := h
    exact ⟨e, rfl⟩

/-- A reader that refuses a text gives nothing. -/
theorem Gives.error {α : Type} {r : Except Fault (α × List Char)} {s : List Char} {f : Fault}
    (h : r = .error f) : Gives r none s := ⟨f, h⟩

/-- Two parts in a row: the second is asked only if something was made of the first. -/
theorem Gives.bind {α β : Type} {r : Except Fault (α × List Char)} {x? : Option α}
    {s s' : List Char} {g : α × List Char → Except Fault (β × List Char)} {f : α → Option β}
    (h : Gives r x? s) (h' : ∀ x, x? = some x → Gives (g (x, s)) (f x) s') :
    Gives (r >>= g) (x?.bind f) s' := by
  cases x? with
  | some x =>
    have hread : r = .ok (x, s) := h
    rw [hread]
    exact h' x rfl
  | none =>
    obtain ⟨e, rfl⟩ := h
    exact ⟨e, rfl⟩

/-! ### The grammar of numerals -/

/-- A run of digits. -/
structure Digits (t : List Char) : Prop where
  ne_nil : t ≠ []
  digits : ∀ c ∈ t, Text.isDigit c = true

/-- The whole part of a numeral: zero, or digits of which the first is not zero. -/
inductive Whole : List Char → Prop
  | zero : Whole ['0']
  | digits {t : List Char} (run : Digits t) (lead : t.head? ≠ some '0') : Whole t

/-- A fraction, if there is one. -/
inductive Fraction : List Char → Prop
  | none : Fraction []
  | some {t : List Char} (run : Digits t) : Fraction ('.' :: t)

/-- An exponent, if there is one. -/
inductive Exponent : List Char → Prop
  | none : Exponent []
  | some {e : Char} {sign t : List Char} (letter : e ∈ ['e', 'E'])
    (signed : sign ∈ [[], ['+'], ['-']]) (run : Digits t) : Exponent (e :: (sign ++ t))

/-- A number of JSON text without a minus sign. -/
inductive Unsigned : List Char → Prop
  | mk {w f e : List Char} (whole : Whole w) (fraction : Fraction f) (exponent : Exponent e) :
    Unsigned (w ++ (f ++ e))

/-- A number of JSON text. -/
inductive Numeral : List Char → Prop
  | plain {t : List Char} (unsigned : Unsigned t) : Numeral t
  | minus {t : List Char} (unsigned : Unsigned t) : Numeral ('-' :: t)

/-! ### Runs of digits -/

/-- A run of digits ends here. -/
def NoDigit (s : List Char) : Prop := ∀ c ∈ s.head?, Text.isDigit c = false

private theorem Digits.takeWhile_append {t s : List Char} (h : Digits t) (hs : NoDigit s) :
    (t ++ s).takeWhile Text.isDigit = t ∧ (t ++ s).dropWhile Text.isDigit = s := by
  rw [List.takeWhile_append_of_pos h.digits, List.dropWhile_append_of_pos h.digits]
  cases s with
  | nil => exact ⟨List.append_nil t, rfl⟩
  | cons c s =>
    have hc : ¬ Text.isDigit c = true := by
      rw [hs c rfl]
      exact Bool.false_ne_true
    rw [List.takeWhile_cons_of_neg hc, List.dropWhile_cons_of_neg hc]
    exact ⟨List.append_nil t, rfl⟩

/-- Digits begin with a digit. -/
theorem Digits.exists_cons {t : List Char} (h : Digits t) :
    ∃ c s, t = c :: s ∧ Text.isDigit c = true := by
  cases t with
  | nil => exact absurd rfl h.ne_nil
  | cons c s => exact ⟨c, s, rfl, h.digits c List.mem_cons_self⟩

/-- A number without a sign begins with a digit. -/
theorem Unsigned.exists_cons {t : List Char} (h : Unsigned t) :
    ∃ c s, t = c :: s ∧ Text.isDigit c = true := by
  obtain ⟨whole, -, -⟩ := h
  cases whole with
  | zero => exact ⟨'0', _, rfl, rfl⟩
  | digits run _ =>
    obtain ⟨c, s, rfl, hc⟩ := run.exists_cons
    exact ⟨c, _, rfl, hc⟩

/-- A numeral begins with a minus sign or a digit. -/
theorem Numeral.exists_cons {t : List Char} (h : Numeral t) :
    ∃ c s, t = c :: s ∧ (c = '-' ∨ Text.isDigit c = true) := by
  cases h with
  | minus _ => exact ⟨'-', _, rfl, .inl rfl⟩
  | plain unsigned =>
    obtain ⟨c, s, rfl, hc⟩ := unsigned.exists_cons
    exact ⟨c, s, rfl, .inr hc⟩

private theorem Reader.Stops.noDigit {s : List Char} (h : Stops s) :
    NoDigit s :=
  fun c hc => (h c hc).1

private theorem Exponent.noDigit {e s : List Char} (he : Exponent e) (hs : Reader.Stops s) :
    NoDigit (e ++ s) := by
  cases he with
  | none => exact hs.noDigit
  | some letter _ _ =>
    intro c hc
    cases hc
    simp only [List.mem_cons, List.not_mem_nil, or_false] at letter
    rcases letter with rfl | rfl <;> rfl

/-- Behind a whole part without a fraction there is no point. -/
theorem Exponent.ne_point {e s : List Char} (he : Exponent e) (hs : Reader.Stops s)
    (t : List Char) : e ++ s ≠ '.' :: t := by
  intro heq
  cases he with
  | none =>
    rw [List.nil_append] at heq
    subst heq
    exact (hs '.' rfl).2.1 rfl
  | some letter _ _ =>
    rw [(List.cons.inj heq).1] at letter
    exact absurd letter (by decide)

private theorem Fraction.noDigit {f e s : List Char} (hf : Fraction f) (he : Exponent e)
    (hs : Reader.Stops s) : NoDigit (f ++ e ++ s) := by
  cases hf with
  | none => exact he.noDigit hs
  | some _ =>
    intro c hc
    cases hc
    rfl

namespace Reader

/-! ### Reading numerals -/

/-- Whatever follows a part of a text, a reader makes the same of the part. -/
def Settles {α : Type} (read : Reader α) (t : List Char) : Prop :=
  ∃ x?, ∀ s, Stops s → Gives (read (t ++ s)) x? s

private theorem settles_floating (negative : Bool) (n : Nat) (e : Int) :
    ∃ x?, ∀ s, Gives (floating negative n e s) x? s := by
  unfold floating
  cases scaled? 4 (Double.ofNat n) e with
  | some x => exact ⟨some _, fun s => rfl⟩
  | none => exact ⟨none, fun s => ⟨_, rfl⟩⟩

private theorem settles_exponentDigits (negative : Bool) (n : Nat) (start : Int) (down : Bool)
    {t : List Char} (ht : Digits t) : Settles (exponentDigits negative n start down) t := by
  obtain ⟨c, t', rfl, hc⟩ := ht.exists_cons
  have hrun : ∀ s, Stops s → (c :: (t' ++ s)).takeWhile Text.isDigit = c :: t' ∧
      (c :: (t' ++ s)).dropWhile Text.isDigit = s := fun s hs => ht.takeWhile_append hs.noDigit
  cases hleft : (accumulate 0x80000000 0 (c :: t')).2 with
  | nil =>
    obtain ⟨x?, hx⟩ := settles_floating negative n (if down then
      start - (accumulate 0x80000000 0 (c :: t')).1
      else start + (accumulate 0x80000000 0 (c :: t')).1)
    refine ⟨x?, fun s hs => ?_⟩
    have hread := hx s
    obtain ⟨htake, hdrop⟩ := hrun s hs
    simp only [List.cons_append, exponentDigits, if_pos hc, htake, hdrop, hleft]
    exact hread
  | cons d more =>
    by_cases hlarge : n ≠ 0 ∧ ¬ down
    · refine ⟨none, fun s hs => ?_⟩
      obtain ⟨htake, hdrop⟩ := hrun s hs
      simp only [List.cons_append, exponentDigits, if_pos hc, htake, hdrop, hleft, if_pos hlarge]
      exact ⟨_, rfl⟩
    · refine ⟨some (.double (Double.zero.signed negative)), fun s hs => ?_⟩
      obtain ⟨htake, hdrop⟩ := hrun s hs
      simp only [List.cons_append, exponentDigits, if_pos hc, htake, hdrop, hleft, if_neg hlarge]
      rfl

private theorem settles_exponentPart (negative : Bool) (n : Nat) (start : Int) {sign t : List Char}
    (hsign : sign ∈ [[], ['+'], ['-']]) (ht : Digits t) :
    Settles (exponentPart negative n start) (sign ++ t) := by
  simp only [List.mem_cons, List.not_mem_nil, or_false] at hsign
  rcases hsign with rfl | rfl | rfl
  · obtain ⟨x?, hx⟩ := settles_exponentDigits negative n start false ht
    refine ⟨x?, fun s hs => ?_⟩
    obtain ⟨c, t', rfl, hc⟩ := ht.exists_cons
    have hplain : c ≠ '+' ∧ c ≠ '-' :=
      Text.of_isDigit (P := fun c => c ≠ '+' ∧ c ≠ '-') (by decide) hc
    have hread : exponentPart negative n start (c :: t' ++ s) =
        exponentDigits negative n start false (c :: t' ++ s) := by
      rw [List.cons_append]
      unfold exponentPart
      split
      · next heq => exact absurd (List.cons.inj heq).1 hplain.1
      · next heq => exact absurd (List.cons.inj heq).1 hplain.2
      · rfl
    rw [List.nil_append, hread]
    exact hx s hs
  · exact settles_exponentDigits negative n start false ht
  · exact settles_exponentDigits negative n start true ht

private theorem settles_exponentOrEnd (negative : Bool) (n : Nat) (start : Int) {e : List Char}
    (he : Exponent e) : Settles (exponentOrEnd negative n start) e := by
  cases he with
  | none =>
    obtain ⟨x?, hx⟩ := settles_floating negative n start
    refine ⟨x?, fun s hs => ?_⟩
    have hread : exponentOrEnd negative n start s = floating negative n start s := by
      unfold exponentOrEnd
      split
      · exact absurd rfl (hs 'e' rfl).2.2.1
      · exact absurd rfl (hs 'E' rfl).2.2.2
      · rfl
    rw [List.nil_append, hread]
    exact hx s
  | @some e sign t letter signed run =>
    have hpart := settles_exponentPart negative n start signed run
    simp only [List.mem_cons, List.not_mem_nil, or_false] at letter
    rcases letter with rfl | rfl <;> exact hpart

private theorem settles_fractionPart (negative : Bool) (n : Nat) (start : Int) {t e : List Char}
    (ht : Digits t) (he : Exponent e) : Settles (fractionPart negative n start) (t ++ e) := by
  obtain ⟨c, t', rfl, hc⟩ := ht.exists_cons
  obtain ⟨x?, hx⟩ := settles_exponentOrEnd negative (accumulate 0x10000000000000000 n (c :: t')).1
    (start - ((c :: t').length - (accumulate 0x10000000000000000 n (c :: t')).2.length : Nat)) he
  refine ⟨x?, fun s hs => ?_⟩
  obtain ⟨htake, hdrop⟩ := ht.takeWhile_append (he.noDigit hs)
  have hread := hx s hs
  rw [List.append_assoc]
  simp only [fractionPart, htake, hdrop]
  exact hread

private theorem settles_afterWhole (negative : Bool) (n : Nat) {f e : List Char} (hf : Fraction f)
    (he : Exponent e) : Settles (afterWhole negative n) (f ++ e) := by
  cases hf with
  | some run => exact settles_fractionPart negative n 0 run he
  | none =>
    cases he with
    | none =>
      refine ⟨some (wholeNumber negative n), fun s hs => ?_⟩
      have hread : afterWhole negative n s = .ok (wholeNumber negative n, s) := by
        unfold afterWhole
        split
        · exact absurd rfl (hs '.' rfl).2.1
        · exact absurd rfl (hs 'e' rfl).2.2.1
        · exact absurd rfl (hs 'E' rfl).2.2.2
        · rfl
      exact hread
    | @some e sign t letter signed run =>
      have hpart := settles_exponentPart negative n 0 signed run
      simp only [List.mem_cons, List.not_mem_nil, or_false] at letter
      rcases letter with rfl | rfl <;> exact hpart

private theorem settles_afterDigits (negative : Bool) (n : Nat) (left : List Char) {f e : List Char}
    (hf : Fraction f) (he : Exponent e) : Settles (afterDigits negative n left) (f ++ e) := by
  by_cases hleft : left.isEmpty = true
  · obtain ⟨x?, hx⟩ := settles_afterWhole negative n hf he
    refine ⟨x?, fun s hs => ?_⟩
    rw [afterDigits.eq_def, if_pos hleft]
    exact hx s hs
  · cases hf with
    | some run =>
      obtain ⟨x?, hx⟩ := settles_fractionPart negative n left.length run he
      refine ⟨x?, fun s hs => ?_⟩
      rw [afterDigits.eq_def, if_neg hleft]
      exact hx s hs
    | none =>
      obtain ⟨x?, hx⟩ := settles_exponentOrEnd negative n left.length he
      refine ⟨x?, fun s hs => ?_⟩
      have hpoint := he.ne_point hs
      rw [List.nil_append, afterDigits.eq_def, if_neg hleft]
      split
      · next t heq => exact absurd heq (hpoint t)
      · exact hx s hs

private theorem settles_unsigned (negative : Bool) {t : List Char} (ht : Unsigned t) :
    Settles (unsigned negative) t := by
  obtain ⟨whole, fraction, exponent⟩ := ht
  next w f e =>
  cases whole with
  | zero =>
    obtain ⟨x?, hx⟩ := settles_afterWhole negative 0 fraction exponent
    refine ⟨x?, fun s hs => ?_⟩
    have hnodigit := fraction.noDigit exponent hs
    have hread := hx s hs
    rw [List.singleton_append, List.cons_append, unsigned.eq_def]
    generalize f ++ e ++ s = rest at hnodigit hread
    cases rest with
    | nil => exact hread
    | cons d rest =>
      have hd := hnodigit d rfl
      simp only [if_true, hd]
      exact hread
  | digits run lead =>
    obtain ⟨c, w', rfl, hc⟩ := run.exists_cons
    have hzero : c ≠ '0' := fun heq => lead (congrArg some heq)
    obtain ⟨x?, hx⟩ := settles_afterDigits negative (accumulate 0x10000000000000000 0 (c :: w')).1
      (accumulate 0x10000000000000000 0 (c :: w')).2 fraction exponent
    refine ⟨x?, fun s hs => ?_⟩
    obtain ⟨htake, hdrop⟩ := run.takeWhile_append (fraction.noDigit exponent hs)
    rw [List.append_assoc]
    rw [List.cons_append] at htake hdrop ⊢
    rw [unsigned.eq_def]
    simp only [if_neg hzero, if_pos hc, htake, hdrop]
    exact hx s hs

/-- Whatever follows a numeral, the reader takes all of it and makes the same of it. -/
theorem settles_number {t : List Char} (ht : Numeral t) : Settles number t := by
  cases ht with
  | minus unsigned => exact settles_unsigned true unsigned
  | plain hunsigned =>
    obtain ⟨x?, hx⟩ := settles_unsigned false hunsigned
    refine ⟨x?, fun s hs => ?_⟩
    obtain ⟨c, t', rfl, hc⟩ := hunsigned.exists_cons
    have hread : number (c :: t' ++ s) = unsigned false (c :: t' ++ s) := by
      rw [List.cons_append, number]
      rintro u heq
      rw [(List.cons.inj heq).1] at hc
      exact absurd hc (by decide)
    rw [hread]
    exact hx s hs

/-! ### Skipping numerals -/

private theorem skipDigits_append {t s : List Char} (ht : Digits t) (hs : NoDigit s) :
    skipDigits (t ++ s) = some s := by
  obtain ⟨-, hdrop⟩ := ht.takeWhile_append hs
  obtain ⟨c, t', rfl, hc⟩ := ht.exists_cons
  rw [List.cons_append] at hdrop ⊢
  rw [skipDigits, if_pos hc]
  rw [List.dropWhile_cons_of_pos hc] at hdrop
  rw [hdrop]

private theorem skipExponent_append {sign t s : List Char} (hsign : sign ∈ [[], ['+'], ['-']])
    (ht : Digits t) (hs : NoDigit s) : skipExponent (sign ++ t ++ s) = .ok s := by
  have hskip := skipDigits_append ht hs
  simp only [List.mem_cons, List.not_mem_nil, or_false] at hsign
  rcases hsign with rfl | rfl | rfl
  · obtain ⟨c, t', rfl, hc⟩ := ht.exists_cons
    have hplain : c ≠ '+' ∧ c ≠ '-' :=
      Text.of_isDigit (P := fun c => c ≠ '+' ∧ c ≠ '-') (by decide) hc
    rw [List.cons_append] at hskip
    rw [List.nil_append, List.cons_append, skipExponent]
    · simp only [hskip]
    · intro u heq
      exact hplain.1 (List.cons.inj heq).1
    · intro u heq
      exact hplain.2 (List.cons.inj heq).1
  · simp only [List.cons_append, List.nil_append, skipExponent, hskip]
  · simp only [List.cons_append, List.nil_append, skipExponent, hskip]

private theorem skipAfterWhole_append {f e s : List Char} (hf : Fraction f) (he : Exponent e)
    (hs : Stops s) : skipAfterWhole (f ++ e ++ s) = .ok s := by
  cases he with
  | none =>
    cases hf with
    | none =>
      rw [List.nil_append, List.nil_append]
      unfold skipAfterWhole
      split
      · exact absurd rfl (hs '.' rfl).2.1
      · exact absurd rfl (hs 'e' rfl).2.2.1
      · exact absurd rfl (hs 'E' rfl).2.2.2
      · rfl
    | some run =>
      rw [List.append_nil, List.cons_append, skipAfterWhole, skipDigits_append run hs.noDigit]
      split
      · next heq => exact absurd heq nofun
      · next heq =>
        cases heq
        exact absurd rfl (hs 'e' rfl).2.2.1
      · next heq =>
        cases heq
        exact absurd rfl (hs 'E' rfl).2.2.2
      · next heq =>
        cases heq
        rfl
  | @some e sign t letter signed run =>
    have hexponent := skipExponent_append signed run hs.noDigit
    have hnodigit : NoDigit ((e :: (sign ++ t)) ++ s) :=
      (Exponent.some letter signed run).noDigit hs
    simp only [List.mem_cons, List.not_mem_nil, or_false] at letter
    cases hf with
    | none => rcases letter with rfl | rfl <;> exact hexponent
    | some digits =>
      rw [List.append_assoc, List.cons_append, skipAfterWhole, skipDigits_append digits hnodigit]
      rcases letter with rfl | rfl <;> exact hexponent

/-- A numeral is skipped as a whole. -/
theorem skipNumber_append {t s : List Char} (ht : Unsigned t) (hs : Stops s) :
    skipNumber (t ++ s) = .ok s := by
  obtain ⟨whole, fraction, exponent⟩ := ht
  next w f e =>
  have hnodigit := fraction.noDigit exponent hs
  have hafter := skipAfterWhole_append fraction exponent hs
  rw [List.append_assoc]
  cases whole with
  | zero =>
    generalize f ++ e ++ s = rest at hnodigit hafter
    cases rest with
    | nil => exact hafter
    | cons d rest =>
      rw [List.singleton_append, skipNumber]
      simp only [hnodigit d rfl]
      exact hafter
  | digits run lead =>
    have hskip := skipDigits_append run hnodigit
    obtain ⟨c, w', rfl, hc⟩ := run.exists_cons
    rw [List.cons_append] at hskip ⊢
    rw [skipNumber, hskip]
    · exact hafter
    · intro u heq
      exact lead (congrArg some (List.cons.inj heq).1)

end Reader

/-! ### Written numbers -/

private theorem digits_zero : Digits ['0'] := by
  refine ⟨List.cons_ne_nil _ _, fun c hc => ?_⟩
  rw [List.mem_singleton.mp hc]
  rfl

private theorem digits_decimal (n : Nat) : Digits (Text.decimal n) :=
  ⟨Text.decimal_ne_nil n, fun _ hc => Text.isDigit_of_mem_decimal hc⟩

private theorem whole_decimal (n : Nat) : Whole (Text.decimal n) := by
  by_cases hn : n = 0
  · rw [hn]
    exact .zero
  · exact .digits (digits_decimal n) (Text.head?_decimal_ne_zero hn)

/-- Digits go on with digits. -/
theorem Digits.append {s t : List Char} (hs : Digits s) (ht : ∀ c ∈ t, Text.isDigit c = true) :
    Digits (s ++ t) :=
  ⟨List.append_ne_nil_of_left_ne_nil hs.ne_nil t,
    fun c hc => (List.mem_append.mp hc).elim (hs.digits c) (ht c)⟩

private theorem isDigit_of_mem_zeros {k : Nat} {c : Char} (h : c ∈ List.replicate k '0') :
    Text.isDigit c = true := by
  rw [(List.mem_replicate.mp h).2]
  rfl

/-- The layout of a decimal that is not zero is a numeral. -/
theorem unsigned_layout {d : Decimal} (hd : d.digits ≠ 0) :
    Unsigned (FloatStyle.json.layout d).toList := by
  have hrun := digits_decimal d.digits
  have hlead := Text.head?_decimal_ne_zero hd
  have hlength := List.length_pos_iff.mpr hrun.ne_nil
  have htext : ∀ n : Nat, (toString n).toList = Text.decimal n := by
    intro n
    simp [Text.decimal]
  simp only [FloatStyle.layout, htext]
  generalize Text.decimal d.digits = ds at hrun hlead hlength
  split
  · -- All digits and some zeros stand before the point.
    have hwhole : Whole (ds ++ List.replicate d.exponent.toNat '0') := by
      refine .digits (hrun.append fun c => isDigit_of_mem_zeros) ?_
      obtain ⟨c, s, rfl, -⟩ := hrun.exists_cons
      exact hlead
    have htoken := Unsigned.mk hwhole (.some digits_zero) .none
    simpa using htoken
  split
  · -- The point stands among the digits.
    next hfirst hsecond =>
    have hwhole : Whole (ds.take (ds.length + d.exponent).toNat) := by
      obtain ⟨k, hk⟩ : ∃ k, (ds.length + d.exponent).toNat = k + 1 :=
        ⟨(ds.length + d.exponent).toNat - 1, by omega⟩
      rw [hk]
      obtain ⟨c, s, rfl, hc⟩ := hrun.exists_cons
      exact .digits ⟨List.cons_ne_nil _ _, fun e he => hrun.digits e (List.mem_of_mem_take he)⟩
        hlead
    have hpart : Digits (ds.drop (ds.length + d.exponent).toNat) := by
      refine ⟨fun hnil => ?_, fun c hc => hrun.digits c (List.mem_of_mem_drop hc)⟩
      have hle := List.drop_eq_nil_iff.mp hnil
      omega
    have htoken := Unsigned.mk hwhole (.some hpart) .none
    simpa using htoken
  split
  · -- Zeros stand between the point and the digits.
    have hpart : Digits (List.replicate (-(ds.length + d.exponent)).toNat '0' ++ ds) :=
      ⟨List.append_ne_nil_of_right_ne_nil _ hrun.ne_nil, fun c hc =>
        (List.mem_append.mp hc).elim isDigit_of_mem_zeros (hrun.digits c)⟩
    have htoken := Unsigned.mk .zero (.some hpart) .none
    simpa using htoken
  · -- One digit stands before the point, and an exponent behind the others.
    obtain ⟨c, s, rfl, hc⟩ := hrun.exists_cons
    have hwhole : Whole [c] :=
      .digits ⟨List.cons_ne_nil _ _, fun e he => List.mem_singleton.mp he ▸ hc⟩ hlead
    have hpart : Fraction (if (c :: s).length ≤ 1 then "" else "." ++ String.ofList s).toList := by
      cases s with
      | nil => exact .none
      | cons d s =>
        have hdigits : Digits (d :: s) :=
          ⟨List.cons_ne_nil _ _, fun e he => hrun.digits e (List.mem_cons_of_mem c he)⟩
        simpa using Fraction.some hdigits
    have hpower : ∃ sign n, sign ∈ [[], ['+'], ['-']] ∧
        (if ((c :: s).length : Int) + d.exponent - 1 < 0 then
          "-" ++ toString (-(((c :: s).length : Int) + d.exponent - 1)).toNat
        else FloatStyle.json.positiveExponent ++
          toString (((c :: s).length : Int) + d.exponent - 1).toNat).toList =
            sign ++ Text.decimal n := by
      split
      · exact ⟨['-'], _, by decide, by rw [String.toList_append, htext]; rfl⟩
      · exact ⟨['+'], _, by decide, by rw [String.toList_append, htext]; rfl⟩
    obtain ⟨sign, n, hsign, hpower⟩ := hpower
    have htoken := Unsigned.mk hwhole hpart (.some (e := 'e') (by decide) hsign (digits_decimal n))
    rw [← hpower] at htoken
    simpa using htoken

/-- Zeros at the end may be left out of a decimal, but not its last digit. -/
theorem trimZeros_digits_ne_zero (fuel : Nat) {d : Decimal} (hd : d.digits ≠ 0) :
    (Double.trimZeros fuel d).digits ≠ 0 := by
  induction fuel generalizing d with
  | zero => exact hd
  | succ fuel ih =>
    rw [Double.trimZeros]
    split
    · next h =>
      refine ih fun hzero => ?_
      dsimp only at hzero
      omega
    · exact hd

private theorem onGrid?_ne_zero {i : RoundingInterval} {unit : Int} {n : Nat}
    (h : Double.onGrid? i unit = some n) : n ≠ 0 := by
  simp only [Double.onGrid?] at h
  generalize (if 0 ≤ unit then Nat.pow 10 unit.toNat else 1) = up at h
  generalize (if 0 ≤ unit then 1 else Nat.pow 10 (-unit).toNat) = down at h
  generalize i.value * down / (i.den * up) = below at h
  generalize i.value * down % (i.den * up) = rest at h
  split at h
  · exact absurd h nofun
  · next hbelow _ =>
    rw [Bool.and_eq_true, decide_eq_true_eq] at hbelow
    cases h
    omega
  · cases h
    exact Nat.succ_ne_zero below
  · next hbelow _ =>
    rw [Bool.and_eq_true, decide_eq_true_eq] at hbelow
    split at h
    · cases h
      omega
    split at h <;> (cases h; omega)

private theorem shortestFrom_digits_ne_zero (i : RoundingInterval) (lead : Int) (fuel count : Nat) :
    (Double.shortestFrom i lead fuel count).digits ≠ 0 := by
  induction fuel generalizing count with
  | zero => exact Nat.one_ne_zero
  | succ fuel ih =>
    rw [Double.shortestFrom]
    split
    · next h => exact onGrid?_ne_zero h
    · exact ih (count + 1)

/-- Every written number is a numeral. -/
theorem numeral_numberChars (n : Number) : Numeral (numberChars n) := by
  have hinteger : ∀ n, Unsigned (Text.decimal n) := by
    intro n
    simpa using Unsigned.mk (whole_decimal n) .none .none
  cases n with
  | int i =>
    rw [numberChars, Text.integer]
    split
    · exact .minus (hinteger _)
    · exact .plain (hinteger _)
  | double x =>
    have hmagnitude : Unsigned
        (if x.isZero then "0.0" else FloatStyle.json.layout x.magnitude.shortest).toList := by
      split
      · exact Unsigned.mk .zero (.some digits_zero) .none
      · exact unsigned_layout (trimZeros_digits_ne_zero _ (shortestFrom_digits_ne_zero _ _ _ _))
    rw [numberChars, FloatStyle.write, String.toList_append]
    split
    · exact .minus hmagnitude
    · exact .plain hmagnitude

end Mishap.Json
