import Mishap.Text.Bytes
import Mishap.Yaml.Lexer
import Mishap.Yaml.Writer

/-!
# Gaps in scalars

Scalars are read run by run, a run being what stands between two gaps. A gap is made of blanks,
which stand for themselves within a line (`gap?_blanks`), or of line ends and the indentation of the
next line, which is dropped (`gap?_breaks`). What is to be shown of all texts is shown of a run, and
of a run and a gap before a text of which it holds (`runs_induction`).
-/

namespace Mishap.Yaml

open Scalar Writer

/-! ### Marks -/

namespace Mark

/-- Behind nothing the mark stays where it is. -/
@[simp] theorem past_nil (m : Mark) : m.past [] = m := rfl

/-- The mark goes past two texts one after the other. -/
theorem past_append (m : Mark) (s t : List Char) : m.past (s ++ t) = (m.past s).past t :=
  List.foldl_append

/-- The mark goes past a character, and then past the others. -/
theorem past_cons (m : Mark) (c : Char) (s : List Char) : m.past (c :: s) = (m.next c).past s := rfl

/-- Behind characters of a line the line is the same, and they are counted in the column and, by
their bytes, in the index. -/
theorem past_eq (m : Mark) (s : List Char) :
    (m.past s).line = m.line ∧ (m.past s).column = m.column + s.length ∧
      (m.past s).index = m.index + Text.byteSize s := by
  induction s generalizing m with
  | nil => exact ⟨rfl, rfl, rfl⟩
  | cons c s ih =>
    obtain ⟨hline, hcolumn, hindex⟩ := ih (m.next c)
    rw [past_cons]
    refine ⟨hline, ?_, ?_⟩
    · rw [hcolumn, next, List.length_cons]
      dsimp only
      omega
    · rw [hindex, next, Text.byteSize_cons]
      dsimp only
      omega

/-- Past some characters the column is further by as many. -/
@[simp] theorem column_past (m : Mark) (s : List Char) :
    (m.past s).column = m.column + s.length := (m.past_eq s).2.1

end Mark

/-! ### Characters -/

/-- All characters can stand outside double quotes. -/
def Printable (s : List Char) : Prop := ∀ c ∈ s, isPrintable c = true

instance (s : List Char) : Decidable (Printable s) :=
  decidable_of_iff (s.all isPrintable = true) List.all_eq_true

/-- The empty text is printable. -/
@[simp] theorem printable_nil : Printable [] := fun _ hc => absurd hc List.not_mem_nil

/-- A text is printable if its first character is and the others are. -/
@[simp] theorem printable_cons {c : Char} {s : List Char} :
    Printable (c :: s) ↔ isPrintable c = true ∧ Printable s := List.forall_mem_cons

/-- Two texts are printable together if each of them is. -/
@[simp] theorem printable_append {s t : List Char} :
    Printable (s ++ t) ↔ Printable s ∧ Printable t := List.forall_mem_append

/-- Blanks are printable. -/
@[simp] theorem printable_blanks (n : Nat) : Printable (blanks n) := by
  intro c hc
  rw [List.eq_of_mem_replicate hc]
  rfl

/-- Of the line ends only three can stand outside double quotes, and those the reader knows. -/
theorem isEnd_of_isPrintable {c : Char} (h : isPrintable c = true) : isEnd c = isBreak c := by
  have hreturn : c ≠ '\r' := by rintro rfl; exact absurd h (by decide)
  have hnext : c ≠ '\x85' := by rintro rfl; exact absurd h (by decide)
  rw [isEnd, isBreak, beq_false_of_ne hreturn, beq_false_of_ne hnext, Bool.or_false, Bool.or_false]

/-- Of the blanks within a line only the space can stand outside double quotes. -/
theorem isSpace_of_isPrintable {c : Char} (h : isPrintable c = true) : isSpace c = (c == ' ') := by
  have htab : c ≠ '\t' := by rintro rfl; exact absurd h (by decide)
  rw [isSpace, beq_false_of_ne htab, Bool.or_false]

/-- A printable character that is neither a blank nor a line end is no gap. -/
theorem gapless_of_isPrintable {c : Char} (h : isPrintable c = true) (hspace : (c == ' ') = false)
    (hbreak : isBreak c = false) : isSpace c = false ∧ isEnd c = false :=
  ⟨(isSpace_of_isPrintable h).trans hspace, (isEnd_of_isPrintable h).trans hbreak⟩

/-- What is no gap for the writer is none for the reader. -/
theorem atGap_of_isGap {c : Char} {s : List Char} (h : isGap (some c) = false) :
    atGap (c :: s) = false := by
  simp only [isGap, isBreak, atGap, isSpace, isEnd, Bool.or_eq_false_iff] at h ⊢
  exact ⟨⟨h.1.1.1, h.1.1.2⟩, ⟨h.2.1.1.1.1, h.2.1.2⟩, h.2.2⟩

/-! ### Gaps -/

/-- A text that begins with no blank and no line end. -/
def Solid (s : List Char) : Prop := ∀ c ∈ s.head?, isSpace c = false ∧ isEnd c = false

/-- A text is solid if its first character is. -/
theorem solid_cons {c : Char} {s : List Char} :
    Solid (c :: s) ↔ isSpace c = false ∧ isEnd c = false :=
  ⟨fun h => h c rfl, fun h _ hd => Option.some.inj hd ▸ h⟩

/-- A solid text stays solid before any other. -/
theorem Solid.append {s : List Char} (h : Solid s) (hne : s ≠ []) (t : List Char) :
    Solid (s ++ t) := by
  cases s with
  | nil => exact absurd rfl hne
  | cons c s => exact solid_cons.mpr (solid_cons.mp h)

private theorem gap?_of_solid {s : List Char} (h : Solid s) (indent : Nat) (broken : Bool)
    (m : Mark) :
    gap? indent broken m s = some ⟨[], [], m, s⟩ := by
  cases s with
  | nil => rfl
  | cons c s =>
    obtain ⟨hspace, hend⟩ := solid_cons.mp h
    simp [gap?, hspace, hend]

/-- Blanks before anything else are taken, and dropped behind a line end. -/
theorem gap?_blanks {s : List Char} (h : Solid s) (indent : Nat) (broken : Bool) (n : Nat)
    (m : Mark) :
    gap? indent broken m (blanks n ++ s) =
      some ⟨if broken then [] else blanks n, [], m.past (blanks n), s⟩ := by
  induction n generalizing m with
  | zero => simp [blanks, gap?_of_solid h]
  | succ n ih =>
    have hblanks : blanks (n + 1) = ' ' :: blanks n := List.replicate_succ
    rw [hblanks, List.cons_append, gap?, if_pos (by decide), if_neg (by simp), ih, Mark.past_cons]
    cases broken <;> rfl

/-- Line ends are taken, and the blanks behind them are dropped. -/
theorem gap?_breaks {breaks s : List Char} (hbreaks : ∀ c ∈ breaks, isEnd c = true)
    (hne : breaks ≠ []) (h : Solid s) (indent : Nat) (broken : Bool) (n : Nat) (m : Mark) :
    ∃ m', m'.column = n ∧ m.line ≤ m'.line ∧
      gap? indent broken m (breaks ++ blanks n ++ s) = some ⟨[], breaks, m', s⟩ := by
  induction breaks generalizing m broken with
  | nil => exact absurd rfl hne
  | cons c breaks ih =>
    have hend := hbreaks c List.mem_cons_self
    have hspace : isSpace c = false := by
      simp only [isEnd, Bool.or_eq_true, beq_iff_eq] at hend
      rcases hend with (rfl | rfl) | rfl <;> decide
    have hstep : ∀ t, gap? indent broken m (c :: t) =
        (gap? indent true (m.nextLine c) t).map fun g =>
          { g with spaces := [], breaks := c :: g.breaks } := fun t => by
      rw [gap?, hspace, if_neg Bool.false_ne_true, if_pos hend]
    rw [List.cons_append, List.cons_append, hstep]
    by_cases hmore : breaks = []
    · subst hmore
      rw [List.nil_append, gap?_blanks h]
      refine ⟨(m.nextLine c).past (blanks n), by simp [Mark.nextLine, blanks], ?_, rfl⟩
      rw [(Mark.past_eq _ _).1]
      exact Nat.le_succ m.line
    · obtain ⟨m', hcolumn, hline, hrest⟩ :=
        ih (fun d hd => hbreaks d (List.mem_cons_of_mem c hd)) hmore true (m.nextLine c)
      rw [hrest]
      exact ⟨m', hcolumn, Nat.le_of_succ_le hline, rfl⟩

/-! ### Document markers -/

/-- Document markers stand at the start of a line. -/
theorem atMarker_of_column {m : Mark} (h : m.column ≠ 0) (s : List Char) :
    atMarker m s = false := by
  unfold atMarker
  split
  · simp [h]
  · rfl

/-- Document markers are made of dashes or dots. -/
theorem atMarker_of_ne {c : Char} (hdash : c ≠ '-') (hdot : c ≠ '.') (m : Mark) (s : List Char) :
    atMarker m (c :: s) = false := by
  unfold atMarker
  split
  · next heq =>
    obtain ⟨rfl, -⟩ := List.cons.inj heq
    simp [hdash, hdot]
  · rfl

/-- A dash before a gap is no document marker. -/
theorem atMarker_of_atGap {s : List Char} (hs : atGap s = true) (m : Mark) :
    atMarker m ('-' :: s) = false := by
  unfold atMarker
  split
  · next heq =>
    obtain ⟨rfl, rfl⟩ := List.cons.inj heq
    have hnext : ∀ d, (isSpace d || isEnd d) = true → ('-' == d) = false := by
      intro d hd
      refine beq_false_of_ne ?_
      rintro rfl
      exact absurd hd (by decide)
    rw [hnext _ hs, Bool.and_false, Bool.false_and, Bool.false_and, Bool.false_and]
  · rfl

/-! ### Runs -/

private theorem exists_run (isGap : Char → Bool) (s : List Char) :
    ∃ run gap w, s = run ++ (gap ++ w) ∧ (∀ c ∈ run, isGap c = false) ∧
      (∀ c ∈ gap, isGap c = true) ∧ (∀ c ∈ w.head?, isGap c = false) ∧ (gap = [] → w = []) := by
  induction s with
  | nil => exact ⟨[], [], [], rfl, nofun, nofun, nofun, fun _ => rfl⟩
  | cons c s ih =>
    obtain ⟨run, gap, w, rfl, hrun, hgap, hw, hnil⟩ := ih
    cases hc : isGap c with
    | false => exact ⟨c :: run, gap, w, rfl, List.forall_mem_cons.mpr ⟨hc, hrun⟩, hgap, hw, hnil⟩
    | true =>
      cases run with
      | nil => exact ⟨[], c :: gap, w, rfl, nofun, List.forall_mem_cons.mpr ⟨hc, hgap⟩, hw, nofun⟩
      | cons d run =>
        refine ⟨[], [c], d :: run ++ (gap ++ w), rfl, nofun, fun x hx => ?_, fun x hx => ?_, nofun⟩
        · rwa [List.mem_singleton.mp hx]
        · exact Option.some.inj hx ▸ hrun d List.mem_cons_self

/-- What holds of a run, and of a run and a gap before a text of which it holds, holds of every
text. -/
@[elab_as_elim]
theorem runs_induction (isGap : Char → Bool) {P : List Char → Prop}
    (last : ∀ run, (∀ c ∈ run, isGap c = false) → P run)
    (step : ∀ run gap w, (∀ c ∈ run, isGap c = false) → (∀ c ∈ gap, isGap c = true) → gap ≠ [] →
      (∀ c ∈ w.head?, isGap c = false) → P w → P (run ++ (gap ++ w))) (s : List Char) : P s := by
  induction hlen : s.length using Nat.strongRecOn generalizing s with
  | ind len ih =>
    subst hlen
    obtain ⟨run, gap, w, rfl, hrun, hgap, hw, hnil⟩ := exists_run isGap s
    by_cases hne : gap = []
    · obtain rfl := hnil hne
      subst hne
      exact (List.append_nil run).symm ▸ last run hrun
    · have hpos := List.length_pos_iff.mpr hne
      refine step run gap w hrun hgap hne hw (ih w.length ?_ w rfl)
      rw [List.length_append, List.length_append]
      omega

/-- What is made of blanks alone. -/
theorem exists_eq_blanks {gap : List Char} (h : ∀ c ∈ gap, c = ' ') (hne : gap ≠ []) :
    ∃ k, gap = blanks (k + 1) := by
  obtain ⟨k, hk⟩ := Nat.exists_eq_add_one.mpr (List.length_pos_iff.mpr hne)
  exact ⟨k, hk ▸ List.eq_replicate_of_mem h⟩

/-- The same for runs without blanks and the blanks behind them. -/
@[elab_as_elim]
theorem blanks_induction {P : List Char → Prop} (last : ∀ run, (∀ c ∈ run, c ≠ ' ') → P run)
    (step : ∀ run k w, (∀ c ∈ run, c ≠ ' ') → w.head? ≠ some ' ' → P w →
      P (run ++ (blanks (k + 1) ++ w))) (s : List Char) : P s := by
  induction s using runs_induction (· == ' ') with
  | last run hrun => exact last run fun c hc => by simpa using hrun c hc
  | step run gap w hrun hgap hne hw ih =>
    obtain ⟨k, rfl⟩ := exists_eq_blanks (fun c hc => by simpa using hgap c hc) hne
    refine step run k w (fun c hc => by simpa using hrun c hc) (fun heq => ?_) ih
    exact absurd (hw ' ' heq) (by decide)

end Mishap.Yaml
