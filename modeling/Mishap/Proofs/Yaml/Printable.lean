import Mishap.Proofs.Json.Spelling
import Mishap.Proofs.Yaml.Style

/-!
# Printable texts

Only characters that can stand outside double quotes are written (`printable_nodeChars`), so that
the reader takes a written text as it is (`plainEnds_of_printable`, `isReadable_of_isPrintable`).
-/

namespace Mishap.Yaml

open Writer

/-! ### Scalars -/

private theorem printable_singleBody (indent : Nat) {s : List Char} (h : Printable s)
    (broken : Bool) :
    Printable (singleBody indent broken s) := by
  induction s generalizing broken with
  | nil => cases broken <;> simp [singleBody]
  | cons c s ih =>
    obtain ⟨hc, hs⟩ := printable_cons.mp h
    have hwritten : Printable (if c = '\'' then ['\'', '\''] else [c]) := by
      split
      · decide
      · simpa using hc
    rw [singleBody]
    split
    · simp [hc, ih hs]
    · cases broken <;> simp [hwritten, ih hs]

private theorem printable_doubleChar (c : Char) : Printable (doubleChar c) := by
  rcases doubleChar_cases c with ⟨heq, hprintable, -⟩ | ⟨e, heq, -, -, hchars, -⟩
  · simp [heq, hprintable]
  · rw [heq, printable_cons]
    refine ⟨rfl, fun d hd => ?_⟩
    obtain ⟨hlow, hhigh⟩ := hchars d hd
    simp only [isPrintable, Bool.or_eq_true, Bool.and_eq_true, decide_eq_true_eq]
    omega

private theorem printable_literalHints (s : List Char) : Printable (literalHints s) := by
  rw [literalHints_eq]
  cases hidesIndent s <;> cases chompOf s <;> decide

private theorem printable_literalBody (indent : Nat) {s : List Char} (h : Printable s)
    (fresh : Bool) :
    Printable (literalBody indent fresh s) := by
  induction s generalizing fresh with
  | nil => exact printable_nil
  | cons c s ih =>
    obtain ⟨hc, hs⟩ := printable_cons.mp h
    rw [literalBody]
    split
    · simp [hc, ih hs]
    · cases fresh <;> simp [hc, ih hs]

/-- A text is printable in any style. -/
@[simp] theorem printable_scalarChars (indent : Nat) (s : List Char) :
    Printable (scalarChars indent s) := by
  have hsuits := suits_styleOf s
  unfold scalarChars
  split <;> rename_i hstyle <;> rw [hstyle] at hsuits
  · exact fun c hc => (hsuits.1.printable c hc).1
  · simp +decide [printable_singleBody indent hsuits.1]
  · have hbody : Printable (s.flatMap doubleChar) := fun c hc => by
      obtain ⟨d, -, hd⟩ := List.mem_flatMap.mp hc
      exact printable_doubleChar d c hd
    simp +decide [hbody]
  · simp +decide [printable_literalHints, printable_literalBody indent hsuits.2.1]

/-- A text of one line is printable. -/
@[simp] theorem printable_scalarLine (indent : Nat) (s : List Char) :
    Printable (scalarLine indent s) := by
  rw [scalarLine, scalarEnd]
  split <;> simp +decide

/-- A key and its colon are printable. -/
@[simp] theorem printable_keyChars (level : Nat) (k : String) : Printable (keyChars level k) := by
  rw [keyChars]
  split <;> simp +decide

/-! ### Values -/

/-- What stands before a value is printable. -/
@[simp] theorem printable_gap (place : Place) : Printable place.gap := by
  cases place <;> decide

section

variable {xs : List Json} {ms : List (String × Json)}

private theorem printable_itemsChars
    (h : ∀ x ∈ xs, ∀ place level, Printable (nodeChars place level x))
    (level : Nat) : Printable (itemsChars level xs) := by
  induction xs with
  | nil => exact printable_nil
  | cons x xs ih =>
    obtain ⟨hx, hxs⟩ := List.forall_mem_cons.mp h
    simp +decide [itemsChars, hx, ih hxs]

private theorem printable_membersChars
    (h : ∀ m ∈ ms, ∀ place level, Printable (nodeChars place level m.2)) (level : Nat) :
    Printable (membersChars level ms) := by
  induction ms with
  | nil => exact printable_nil
  | cons m ms ih =>
    obtain ⟨hm, hms⟩ := List.forall_mem_cons.mp h
    simp [membersChars, hm, ih hms]

end

/-- The text of a value whose numbers are integers is printable, wherever it stands. -/
theorem printable_nodeChars {v : Json} (h : v.Integral) (place : Place) (level : Nat) :
    Printable (nodeChars place level v) := by
  induction h generalizing place level with
  | null => simp +decide [nodeChars]
  | bool b => cases b <;> simp +decide [nodeChars]
  | @int i range =>
    have hdigits : Printable (Text.integer i) := fun c hc => ((unquoted_integer i).printable c hc).1
    simp +decide [nodeChars, numberChars, hdigits]
  | string s => simp [nodeChars]
  | @array xs items ih =>
    cases xs with
    | nil => simp +decide [nodeChars]
    | cons x xs =>
      obtain ⟨hx, hxs⟩ := List.forall_mem_cons.mp ih
      cases place <;> simp +decide [nodeChars, hx, printable_itemsChars hxs]
  | @object ms members ih =>
    cases ms with
    | nil => simp +decide [nodeChars]
    | cons m ms =>
      obtain ⟨hm, hms⟩ := List.forall_mem_cons.mp ih
      cases place <;> simp +decide [nodeChars, hm, printable_membersChars hms]

/-! ### Reading -/

/-- The reader finds no line end that it would have to replace. -/
theorem plainEnds_of_printable {s : List Char} (h : Printable s) : plainEnds s = s := by
  induction s with
  | nil => rfl
  | cons c s ih =>
    obtain ⟨hc, hs⟩ := printable_cons.mp h
    have hreturn : c ≠ '\r' := by rintro rfl; exact absurd hc (by decide)
    have hnext : c ≠ '\x85' := by rintro rfl; exact absurd hc (by decide)
    rw [plainEnds, ih hs, beq_false_of_ne hreturn, beq_false_of_ne hnext]
    · rfl
    · intro t heq
      exact absurd heq hreturn

/-- What is printable can be read. -/
theorem isReadable_of_isPrintable {c : Char} (h : isPrintable c = true) : isReadable c = true := by
  simp only [isPrintable, Bool.or_eq_true, Bool.and_eq_true, decide_eq_true_eq, beq_iff_eq] at h
  simp only [isReadable, Bool.or_eq_true, Bool.and_eq_true, decide_eq_true_eq, beq_iff_eq]
  rcases h with (((hline | hlow) | hhigh) | hprivate) | hlast
  · exact .inl (.inl (.inl (.inl (.inl (.inr (Char.toNat_inj.mp hline))))))
  all_goals omega

end Mishap.Yaml
