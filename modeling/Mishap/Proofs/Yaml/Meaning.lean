import Mishap.Proofs.Text.Digits
import Mishap.Json.Basic
import Mishap.Yaml.Plain

/-!
# What written scalars mean

The decimal text of an integer of the 64-bit range means that integer (`meaning_integer`).
-/

namespace Mishap.Yaml.Plain

open Text (decimal isDigit)

private theorem ne_of_isDigit {c d : Char} (h : isDigit c = true) (hd : isDigit d = false) :
    c ≠ d := by
  rintro rfl
  exact absurd (h.symm.trans hd) nofun

private theorem decimal_cases (n : Nat) : ∃ c t, decimal n = c :: t ∧ isDigit c = true ∧
    (∀ d ∈ t, isDigit d = true) ∧ (c = '0' → t = []) := by
  have hall := fun c => @Text.isDigit_of_mem_decimal n c
  by_cases hzero : n = 0
  · subst hzero
    exact ⟨'0', [], rfl, rfl, nofun, fun _ => rfl⟩
  · have hhead := Text.head?_decimal_ne_zero hzero
    cases hd : decimal n with
    | nil => exact absurd hd (Text.decimal_ne_nil n)
    | cons c t =>
      rw [hd] at hall hhead
      exact ⟨c, t, rfl, hall c List.mem_cons_self, fun d hd => hall d (List.mem_cons_of_mem c hd),
        fun heq => absurd (congrArg some heq) hhead⟩

private theorem foldl_digits {ds : List Char} (h : ∀ d ∈ ds, isDigit d = true) (n : Nat) :
    ds.foldl (fun n? c => do
      let n ← n?
      let d ← Text.hexValue? c
      if d < 10 then some (n * 10 + d) else none) (some n) =
      some (ds.foldl (fun n c => 10 * n + Text.digitValue c) n) := by
  induction ds generalizing n with
  | nil => rfl
  | cons c ds ih =>
    have hc := h c List.mem_cons_self
    have hvalue : Text.hexValue? c = some (Text.digitValue c) := if_pos hc
    have hlt : Text.digitValue c < 10 :=
      Text.of_isDigit (P := (Text.digitValue · < 10)) (by decide) hc
    have hcomm : n * 10 + Text.digitValue c = 10 * n + Text.digitValue c := by omega
    rw [List.foldl_cons, List.foldl_cons, ← ih fun d hd => h d (List.mem_cons_of_mem c hd), ← hcomm]
    simp [hvalue, hlt]

private theorem naturalIn?_decimal (n : Nat) : naturalIn? 10 (decimal n) = some n := by
  have hne : (decimal n).isEmpty = false :=
    Bool.eq_false_iff.mpr fun h => Text.decimal_ne_nil n (List.isEmpty_iff.mp h)
  rw [naturalIn?, hne, if_neg Bool.false_ne_true, foldl_digits fun _ => Text.isDigit_of_mem_decimal]
  exact congrArg some (Text.decimalValue_decimal n)

private theorem radixOf_decimal (n : Nat) : radixOf (decimal n) = none := by
  obtain ⟨c, t, hd, -, -, hzero⟩ := decimal_cases n
  rw [hd, radixOf.eq_def]
  split <;> simp_all

private theorem hasLeadingZero_decimal (n : Nat) :
    hasLeadingZero (decimal n) = false ∧ hasLeadingZero ('-' :: decimal n) = false := by
  obtain ⟨c, t, hd, hc, -, hzero⟩ := decimal_cases n
  have hzeros : ∀ d u, c :: t ≠ '0' :: d :: u := by
    rintro d u heq
    obtain ⟨rfl, rfl⟩ := List.cons.inj heq
    exact List.cons_ne_nil d u (hzero rfl)
  rw [hd]
  constructor
  · unfold hasLeadingZero
    split
    · next heq => exact absurd (List.cons.inj heq).1 (ne_of_isDigit hc (by decide))
    · next heq => exact absurd (List.cons.inj heq).1 (ne_of_isDigit hc (by decide))
    · dsimp only
      split
      · next heq => exact absurd heq (hzeros _ _)
      · rfl
  · unfold hasLeadingZero
    split
    · next heq =>
      obtain ⟨-, rfl⟩ := List.cons.inj heq
      dsimp only
      split
      · next heq => exact absurd heq (hzeros _ _)
      · rfl
    · next heq => exact absurd (List.cons.inj heq).1 (by decide)
    · next hother _ => exact absurd rfl (hother _)

/-- A number is read back from its decimal text. -/
theorem natural?_decimal (n : Nat) : natural? (decimal n) = some n := by
  obtain ⟨c, t, hd, hc, -, -⟩ := decimal_cases n
  rw [natural?]
  · simp only [radixOf_decimal, (hasLeadingZero_decimal n).1, naturalIn?_decimal,
      Bool.false_eq_true, if_false]
  · intro u heq
    rw [hd] at heq
    exact ne_of_isDigit hc (by decide) (List.cons.inj heq).1

private theorem integer?_integer (i : Int) : integer? (Text.integer i) = some i := by
  rw [Text.integer]
  split
  · next hneg =>
    have hnone : ∀ ds : List Char, ds.foldl (fun n? c => do
        let n ← n?
        let d ← Text.hexValue? c
        if d < 10 then some (n * 10 + d) else none) none = (none : Option Nat) := by
      intro ds
      induction ds with
      | nil => rfl
      | cons c ds ih => exact ih
    have hnatural : natural? ('-' :: decimal i.natAbs) = none := by
      have hradix : radixOf ('-' :: decimal i.natAbs) = none := rfl
      have hten : naturalIn? 10 ('-' :: decimal i.natAbs) = none := hnone _
      rw [natural?]
      · simp only [hradix, (hasLeadingZero_decimal _).2, hten, ite_self]
      · exact nofun
    have hnegative : negative? ('-' :: decimal i.natAbs) = some i.natAbs := by
      rw [negative?, radixOf_decimal]
      simp only [(hasLeadingZero_decimal _).2, naturalIn?_decimal, Bool.false_eq_true, if_false]
    have hback : -(i.natAbs : Int) = i := by omega
    rw [integer?, hnatural, hnegative]
    exact congrArg some hback
  · next hpos =>
    have hback : (i.natAbs : Int) = i := by omega
    rw [integer?, natural?_decimal]
    exact congrArg some hback

private theorem any_word_integer (i : Int) {words : List String}
    (h : ∀ w ∈ words, w.toList.head?.all (fun c => !isDigit c && c != '-') = true) :
    words.any (·.toList == Text.integer i) = false := by
  obtain ⟨c, t, hd, hc, -, -⟩ := decimal_cases i.natAbs
  rw [List.any_eq_false]
  intro w hw heq
  have hhead := h w hw
  rw [beq_iff_eq.mp heq, Text.integer] at hhead
  split at hhead
  · exact absurd hhead (by simp)
  · simp [hd, hc] at hhead

/-- No integer is read as nothing. -/
theorem isNull_integer (i : Int) : isNull (Text.integer i) = false := any_word_integer i (by decide)

/-- The text of an integer means the integer. -/
theorem meaning_integer {i : Int} (hi : Number.InRange i) : meaning (Text.integer i) = .int i := by
  have hbool : bool? (Text.integer i) = none := by
    rw [bool?, any_word_integer i (by decide), any_word_integer i (by decide)]
    rfl
  obtain ⟨hlow, hhigh⟩ := hi
  rw [meaning, isNull_integer, hbool, integer?_integer]
  simp only [Bool.false_eq_true, if_false]
  rw [if_pos ⟨by omega, by omega⟩, meaningOfInt, if_pos ⟨hlow, hhigh⟩]

/-- What means a text is no word for null or a boolean. -/
theorem isNull_of_meaning {s : List Char} (h : meaning s = .text) : isNull s = false := by
  rw [meaning] at h
  split at h
  · exact absurd h nofun
  · next hnull => exact Bool.eq_false_iff.mpr hnull

end Mishap.Yaml.Plain
