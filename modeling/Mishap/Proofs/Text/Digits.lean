import Mishap.Text.Digits
import Mathlib.Data.Nat.Digits.Defs

/-!
# Decimal text

The decimal text of a number is made of digits (`isDigit_of_mem_decimal`), denotes the number
(`decimalValue_decimal`) and begins with a zero only for zero itself (`head?_decimal_ne_zero`).
Leading zeros up to a width change neither.
-/

namespace Mishap.Text

/-- What holds of the ten digits holds of every digit. -/
theorem of_isDigit {P : Char → Prop} (h : ∀ n < 10, P n.digitChar) {c : Char}
    (hc : isDigit c = true) : P c := by
  simp only [isDigit, Bool.and_eq_true, decide_eq_true_eq, Char.le_def,
    UInt32.le_iff_toNat_le] at hc
  have hlow : 48 ≤ c.toNat := hc.1
  have hhigh : c.toNat ≤ 57 := hc.2
  have hten : ∀ n < 10, Char.ofNat (48 + n) = n.digitChar := by decide
  have hchar : c = (c.toNat - 48).digitChar := by
    rw [← hten _ (by omega), Nat.add_sub_cancel' hlow, Char.ofNat_toNat]
  rw [hchar]
  exact h _ (by omega)

/-- A decimal text has digits alone. -/
theorem isDigit_of_mem_decimal {n : Nat} {c : Char} (h : c ∈ decimal n) : isDigit c = true := by
  have hdigit := Nat.isDigit_of_mem_toDigits (by decide) (by decide) h
  simpa [isDigit, Char.isDigit, Char.le_def] using hdigit

/-- A decimal text is never empty. -/
theorem decimal_ne_nil (n : Nat) : decimal n ≠ [] := Nat.toDigits_ne_nil

/-- A number is read back from its decimal text. -/
theorem decimalValue_decimal (n : Nat) : decimalValue (decimal n) = n :=
  Nat.ofDigitChars_ten_toDigits

/-- More digits do not make a number smaller. -/
theorem le_foldl_digits (s : List Char) (n : Nat) :
    n ≤ s.foldl (fun n c => 10 * n + digitValue c) n := by
  induction s generalizing n with
  | nil => exact Nat.le_refl n
  | cons c s ih =>
    have hnext := ih (10 * n + digitValue c)
    rw [List.foldl_cons]
    omega

/-- Leading zeros are digits. -/
theorem isDigit_of_mem_zeroPadded {width n : Nat} {c : Char} (h : c ∈ zeroPadded width n) :
    isDigit c = true := by
  rcases List.mem_append.mp h with hzero | hdigit
  · rw [(List.mem_replicate.mp hzero).2]
    rfl
  · exact isDigit_of_mem_decimal hdigit

/-- Leading zeros do not change a number. -/
theorem decimalValue_zeroPadded (width n : Nat) : decimalValue (zeroPadded width n) = n := by
  have hzeros : ∀ k, (List.replicate k '0').foldl (fun n c => 10 * n + digitValue c) 0 = 0 := by
    intro k
    induction k with
    | zero => rfl
    | succ k ih => exact ih
  rw [zeroPadded, padLeft, decimalValue, List.foldl_append, hzeros]
  exact decimalValue_decimal n

/-- A number that needs no more digits is filled up to the width. -/
theorem length_zeroPadded {width n : Nat} (hwidth : 0 < width) (hn : n < 10 ^ width) :
    (zeroPadded width n).length = width := by
  have hlength : (decimal n).length ≤ width := Nat.toDigits_length 10 n width hwidth hn
  rw [zeroPadded, padLeft, List.length_append, List.length_replicate]
  omega

/-- A padded number is never empty. -/
theorem zeroPadded_ne_nil (width n : Nat) : zeroPadded width n ≠ [] :=
  List.append_ne_nil_of_right_ne_nil _ (decimal_ne_nil n)

/-- Only zero is written with a leading zero. -/
theorem head?_decimal_ne_zero {n : Nat} (h : n ≠ 0) : (decimal n).head? ≠ some '0' := by
  induction n using Nat.strongRecOn with
  | ind n ih =>
    have hdigits := Nat.toDigits_eq_if (b := 10) (n := n) (by decide)
    rw [decimal, hdigits]
    split
    · next hlt =>
      have hone : ∀ m < 10, m ≠ 0 → [m.digitChar].head? ≠ some '0' := by decide
      exact hone n hlt h
    · next hge =>
      have hhead := ih (n / 10) (by omega) (by omega)
      rw [decimal] at hhead
      cases hd : Nat.toDigits 10 (n / 10) with
      | nil => exact absurd hd Nat.toDigits_ne_nil
      | cons c s =>
        rw [hd] at hhead
        exact hhead

end Mishap.Text
