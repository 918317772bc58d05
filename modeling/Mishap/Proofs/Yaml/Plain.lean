import Mishap.Proofs.Text.Digits
import Mishap.Proofs.Yaml.Gaps

/-!
# Plain scalars

A text that the writer leaves plain stands for itself up to what ends it (`plainFrom?_of_bare`): a
colon before a gap, or the end of its line before a line that is not indented as deep. Such are the
texts that show no sign of other YAML (`unquoted_of_allowsPlain`) and the integers
(`unquoted_integer`).
-/

namespace Mishap.Yaml

open Scalar Writer

/-! ### Up to the end -/

/-- A text that stands for itself without quotes, once it has begun: no colon stands before a gap
and no number sign behind a blank. -/
structure Bare (s : List Char) : Prop where
  printable : ∀ c ∈ s, isPrintable c = true ∧ isBreak c = false
  colon : ∀ a t, s = a ++ ':' :: t → isGap t.head? = false
  hash : ∀ a t, s = a ++ '#' :: t → ∃ c, a.getLast? = some c ∧ c ≠ ' '
  last : s.getLast? ≠ some ' '

namespace Bare

private theorem getLast?_append_blanks (run : List Char) (k : Nat) :
    (run ++ blanks (k + 1)).getLast? = some ' ' := by
  rw [blanks, List.replicate_succ', ← List.append_assoc, List.getLast?_concat]

/-- What follows blanks goes on without quotes as well. -/
theorem of_append {run w : List Char} {k : Nat} (h : Bare (run ++ (blanks (k + 1) ++ w))) :
    Bare w := by
  have hlast := getLast?_append_blanks run k
  rw [← List.append_assoc] at h
  refine ⟨fun c hc => h.printable c (List.mem_append_right _ hc), fun a t heq => ?_,
    fun a t heq => ?_, fun heq => h.last ?_⟩
  · exact h.colon (run ++ blanks (k + 1) ++ a) t (by rw [heq, List.append_assoc _ a])
  · obtain ⟨c, hc, hne⟩ :=
      h.hash (run ++ blanks (k + 1) ++ a) t (by rw [heq, List.append_assoc _ a])
    rw [List.getLast?_append, hlast] at hc
    cases ha : a.getLast? with
    | none =>
      rw [ha] at hc
      exact absurd (Option.some.inj hc).symm hne
    | some d =>
      rw [ha] at hc
      exact ⟨d, rfl, Option.some.inj hc ▸ hne⟩
  · rw [List.getLast?_append, heq]
    rfl

/-- Something follows blanks. -/
theorem ne_nil_of_append {run w : List Char} {k : Nat}
    (h : Bare (run ++ (blanks (k + 1) ++ w))) : w ≠ [] := by
  rintro rfl
  rw [List.append_nil] at h
  exact h.last (getLast?_append_blanks run k)

/-- Apart from blanks, its characters are no gaps for the reader. -/
theorem not_gap {s : List Char} (h : Bare s) {c : Char} (hc : c ∈ s) (hne : c ≠ ' ') :
    isSpace c = false ∧ isEnd c = false := by
  obtain ⟨hprintable, hbreak⟩ := h.printable c hc
  exact gapless_of_isPrintable hprintable (beq_false_of_ne hne) hbreak

/-- It begins with no line end, and with no blank behind blanks. -/
theorem solid {s : List Char} (h : Bare s) (hhead : s.head? ≠ some ' ') : Solid s := by
  cases s with
  | nil => exact nofun
  | cons c s => exact solid_cons.mpr (h.not_gap List.mem_cons_self fun heq => hhead (heq ▸ rfl))

/-- It begins with no number sign. -/
theorem head?_ne {s : List Char} (h : Bare s) : s.head? ≠ some '#' := by
  intro heq
  obtain ⟨t, rfl⟩ := List.head?_eq_some_iff.mp heq
  obtain ⟨c, hc, -⟩ := h.hash [] t rfl
  exact absurd hc nofun

/-- More follows a colon in it. -/
theorem atGap_colon {s a t : List Char} (h : Bare s) (heq : s = a ++ ':' :: t) (rest : List Char) :
    atGap (t ++ rest) = false := by
  have hgap := h.colon a t heq
  cases t with
  | nil => exact absurd hgap nofun
  | cons d t => exact atGap_of_isGap hgap

end Bare

/-- What ends a plain scalar behind its last character: a colon before a gap, or a line end before a
line that does not reach a column. -/
inductive PlainEnd (indent : Nat) (m : Mark) : List Char → Bool → Mark → List Char → Prop
  | colon {r : List Char} (gap : atGap r = true) : PlainEnd indent m (':' :: r) false m (':' :: r)
  | line {c : Nat} {s : List Char} (below : c < indent) (starts : Solid s) :
    PlainEnd indent m ('\n' :: (blanks c ++ s)) true ((m.nextLine '\n').past (blanks c)) s

private theorem plainRun?_append {run rest : List Char}
    (hrun : ∀ c ∈ run, isSpace c = false ∧ isEnd c = false)
    (hcolon : ∀ a t, run = a ++ ':' :: t → atGap (t ++ rest) = false)
    (hstop : ∀ m, plainRun? false m rest = some ([], m, rest)) (m : Mark) :
    plainRun? false m (run ++ rest) = some (run, m.past run, rest) := by
  induction run generalizing m with
  | nil => exact hstop m
  | cons c run ih =>
    obtain ⟨hspace, hend⟩ := hrun c List.mem_cons_self
    have hrest := ih (fun d hd => hrun d (List.mem_cons_of_mem c hd))
      (fun a t heq => hcolon (c :: a) t (by rw [heq, List.cons_append])) (m.next c)
    have hgo : (c == ':' && atGap (run ++ rest)) = false := by
      by_cases hc : c = ':'
      · rw [hcolon [] run (by rw [hc, List.nil_append]), Bool.and_false]
      · rw [beq_false_of_ne hc, Bool.false_and]
    rw [List.cons_append, plainRun?, hspace, hend, hgo, hrest]
    rfl

section

variable {indent fuel : Nat} {pending run tail w : List Char} {m : Mark}

private theorem Bare.begins (hs : Bare (run ++ w)) (hne : run ≠ [])
    (hmarker : atMarker m (run ++ tail) = false) :
    (atMarker m (run ++ tail) || (run ++ tail).head? == some '#') = false := by
  obtain ⟨c, run, rfl⟩ := List.exists_cons_of_ne_nil hne
  rw [hmarker, Bool.false_or]
  exact beq_false_of_ne hs.head?_ne

private theorem plainFrom?_last (hs : Bare run) (hne : run ≠ []) (hrun : ∀ c ∈ run, c ≠ ' ')
    (hmarker : atMarker m (run ++ tail) = false) {broken : Bool} {m' : Mark} {rest : List Char}
    (hend : PlainEnd indent (m.past run) tail broken m' rest) :
    plainFrom? false indent (fuel + 1) pending false m (run ++ tail) =
      some ⟨pending ++ run, broken, m', rest⟩ := by
  have hbegin := Bare.begins ((List.append_nil run).symm ▸ hs) hne hmarker
  have hstop : ∀ m, plainRun? false m tail = some ([], m, tail) := by
    intro m
    cases hend with
    | colon hgap => simp [plainRun?, hgap, isSpace, isEnd]
    | line _ _ => simp [plainRun?, isEnd]
  have hread := plainRun?_append (fun c hc => hs.not_gap hc (hrun c hc))
    (fun a t heq => hs.atGap_colon heq tail) hstop m
  rw [plainFrom?, hbegin, if_neg Bool.false_ne_true, hread]
  simp only [Option.bind_eq_bind, Option.bind_some, List.isEmpty_eq_false_iff.mpr hne,
    Bool.and_false, Bool.false_eq_true, if_false]
  cases hend with
  | colon hgap => rfl
  | @line c s hbelow hstarts =>
    have hgap : gap? indent false (m.past run) ('\n' :: (blanks c ++ rest)) =
        some ⟨[], ['\n'], ((m.past run).nextLine '\n').past (blanks c), rest⟩ := by
      rw [gap?, if_neg (by decide), if_pos (by decide), gap?_blanks hstarts]
      rfl
    have hshort : ((m.past run).nextLine '\n').column + (blanks c).length < indent := by
      simpa [Mark.nextLine, blanks] using hbelow
    have hnext : atGap ('\n' :: (blanks c ++ rest)) = true := rfl
    simp [hgap, Nat.not_le.mpr hshort, hnext]

private theorem plainFrom?_blanks {k : Nat} (hs : Bare (run ++ (blanks (k + 1) ++ w)))
    (hne : run ≠ []) (hrun : ∀ c ∈ run, c ≠ ' ') (hw : w.head? ≠ some ' ')
    (hmarker : atMarker m (run ++ (blanks (k + 1) ++ (w ++ tail))) = false)
    (hreach : indent ≤ (m.past (run ++ blanks (k + 1))).column) :
    plainFrom? false indent (fuel + 1) pending false m (run ++ (blanks (k + 1) ++ (w ++ tail))) =
      (plainFrom? false indent fuel (blanks (k + 1)) false (m.past (run ++ blanks (k + 1)))
        (w ++ tail)).map fun more => { more with text := pending ++ run ++ more.text } := by
  have hbegin := Bare.begins hs hne hmarker
  have hstarts : Solid (w ++ tail) :=
    (hs.of_append.solid hw).append hs.ne_nil_of_append tail
  have hblank : blanks (k + 1) ++ (w ++ tail) = ' ' :: (blanks k ++ (w ++ tail)) := rfl
  have hstop : ∀ m, plainRun? false m (blanks (k + 1) ++ (w ++ tail)) =
      some ([], m, blanks (k + 1) ++ (w ++ tail)) := fun m => by rw [hblank]; rfl
  have hcolon : ∀ a t, run = a ++ ':' :: t →
      atGap (t ++ (blanks (k + 1) ++ (w ++ tail))) = false := by
    intro a t heq
    have hgap := hs.atGap_colon (a := a) (t := t ++ (blanks (k + 1) ++ w))
      (by rw [heq, List.append_assoc, List.cons_append]) tail
    simpa only [List.append_assoc] using hgap
  have hread := plainRun?_append
    (fun c hc => hs.not_gap (List.mem_append_left _ hc) (hrun c hc)) hcolon hstop m
  have hnext : ((blanks (k + 1) ++ (w ++ tail)).isEmpty ||
      !atGap (blanks (k + 1) ++ (w ++ tail))) = false := rfl
  have hfold : fold (blanks (k + 1)) [] = blanks (k + 1) := rfl
  rw [Mark.past_append] at hreach ⊢
  rw [plainFrom?, hbegin, if_neg Bool.false_ne_true, hread]
  simp only [Option.bind_eq_bind, Option.bind_some, List.isEmpty_eq_false_iff.mpr hne,
    Bool.and_false, hnext, gap?_blanks hstarts, Bool.false_eq_true, if_false, Bool.not_false,
    Bool.true_and, decide_eq_true_eq, if_neg (Nat.not_lt.mpr hreach), hfold, List.isEmpty_nil,
    Bool.not_true]
  cases plainFrom? false indent fuel (blanks (k + 1)) false
    ((m.past run).past (blanks (k + 1))) (w ++ tail) <;> rfl

end

/-- A plain scalar is read up to its end. -/
theorem plainFrom?_of_bare {indent : Nat} {s tail : List Char} (hs : Bare s) (hne : s ≠ [])
    (hhead : s.head? ≠ some ' ') {m : Mark} (hcolumn : indent ≤ m.column + 1)
    (hmarker : atMarker m (s ++ tail) = false) {broken : Bool} {m' : Mark} {rest : List Char}
    (hend : PlainEnd indent (m.past s) tail broken m' rest) (pending : List Char) {fuel : Nat}
    (hfuel : s.length ≤ fuel) :
    plainFrom? false indent fuel pending false m (s ++ tail) =
      some ⟨pending ++ s, broken, m', rest⟩ := by
  obtain ⟨fuel, rfl⟩ : ∃ f, fuel = f + 1 := Nat.exists_eq_add_one.mpr
    (Nat.lt_of_lt_of_le (List.length_pos_iff.mpr hne) hfuel)
  induction s using blanks_induction generalizing m pending fuel with
  | last run hrun => exact plainFrom?_last hs hne hrun hmarker hend
  | step run k w hrun hw ih =>
    have hrunne : run ≠ [] := by
      rintro rfl
      exact hhead rfl
    have hpos := List.length_pos_iff.mpr hrunne
    have hwpos := List.length_pos_iff.mpr hs.ne_nil_of_append
    have hlength : (run ++ (blanks (k + 1) ++ w)).length = run.length + (k + 1 + w.length) := by
      simp [blanks]
    have hcolumn₁ : (m.past (run ++ blanks (k + 1))).column =
        m.column + (run.length + (k + 1)) := by
      simp [blanks]
    obtain ⟨fuel, rfl⟩ : ∃ f, fuel = f + 1 := Nat.exists_eq_add_one.mpr (by omega)
    rw [← List.append_assoc, Mark.past_append] at hend
    have hlater := ih hs.of_append hs.ne_nil_of_append hw (by omega)
      (atMarker_of_column (by omega) _) hend (blanks (k + 1)) fuel (by omega)
    have hassoc : run ++ (blanks (k + 1) ++ w) ++ tail =
        run ++ (blanks (k + 1) ++ (w ++ tail)) := by
      simp only [List.append_assoc]
    rw [hassoc] at hmarker ⊢
    rw [plainFrom?_blanks hs hrunne hrun hw hmarker (by omega), hlater]
    simp only [Option.map_some, List.append_assoc]

/-! ### What stays plain -/

/-- A text that is read as itself where no quotes stand around it. -/
structure Unquoted (s : List Char) : Prop extends Bare s where
  ne_nil : s ≠ []
  head : s.head? ≠ some ' '
  first : ∀ c t, s = c :: t → Traits.startsIndicator c t.head? = false
  marker : Traits.startsMarker s = false

/-- A test that no inner character meets is not met at any inner place. -/
theorem Traits.anyInner_eq_false {test : Char → Char → Option Char → Bool} {s : List Char}
    (h : Traits.anyInner test s = false) {a t : List Char} {x y : Char}
    (heq : s = a ++ x :: y :: t) : test x y t.head? = false := by
  induction a generalizing s with
  | nil =>
    subst heq
    exact (Bool.or_eq_false_iff.mp h).1
  | cons b a ih =>
    subst heq
    cases a with
    | nil => exact ih (Bool.or_eq_false_iff.mp h).2 rfl
    | cons c a => exact ih (Bool.or_eq_false_iff.mp h).2 rfl

/-- What the writer leaves plain can stand without quotes. -/
theorem unquoted_of_allowsPlain {s : List Char} (hne : s ≠ [])
    (h : (Traits.of s).allowsPlain = true) : Unquoted s := by
  simp only [Traits.allowsPlain, Bool.not_eq_true', Bool.or_eq_false_iff] at h
  obtain ⟨⟨⟨⟨⟨⟨⟨⟨hlead, -⟩, htrail⟩, -⟩, -⟩, -⟩, hspecial⟩, hbreaks⟩, hindicator⟩ := h
  simp only [Traits.of] at hlead htrail hspecial hbreaks hindicator
  simp only [Bool.or_eq_false_iff] at hindicator
  obtain ⟨⟨hmarker, hfirst⟩, hinner⟩ := hindicator
  have hstart : ∀ c t, s = c :: t → Traits.startsIndicator c t.head? = false := by
    rintro c t rfl
    exact hfirst
  refine ⟨⟨fun c hc => ⟨?_, ?_⟩, fun a t heq => ?_, fun a t heq => ?_, ?_⟩, hne, ?_, hstart,
    hmarker⟩
  · simpa using List.any_eq_false.mp hspecial c hc
  · simpa using List.any_eq_false.mp hbreaks c hc
  · rcases List.eq_nil_or_concat a with rfl | ⟨a, x, rfl⟩
    · simpa [Traits.startsIndicator] using (Bool.or_eq_false_iff.mp (hstart ':' t heq)).2
    · rw [List.concat_eq_append, List.append_assoc] at heq
      simpa [Traits.innerIndicator] using Traits.anyInner_eq_false hinner heq
  · rcases List.eq_nil_or_concat a with rfl | ⟨a, x, rfl⟩
    · exact absurd (hstart '#' t heq) (by simp [Traits.startsIndicator, Traits.isLeadingIndicator])
    · rw [List.concat_eq_append, List.append_assoc] at heq
      refine ⟨x, by simp, ?_⟩
      rintro rfl
      exact absurd (Traits.anyInner_eq_false hinner heq) (by simp [Traits.innerIndicator, isGap])
  · simpa using htrail
  · simpa using hlead

/-- It is taken for no document marker. -/
theorem Unquoted.atMarker {s : List Char} (h : Unquoted s) {tail : List Char}
    (htail : ∀ c ∈ tail.head?, c ≠ '-' ∧ c ≠ '.') (m : Mark) : atMarker m (s ++ tail) = false := by
  have hmarker := h.marker
  rw [Traits.startsMarker, Bool.or_eq_false_iff, beq_eq_false_iff_ne,
    beq_eq_false_iff_ne] at hmarker
  rw [← Bool.not_eq_true]
  intro hat
  unfold Scalar.atMarker at hat
  split at hat
  · next a b c r heq =>
    simp only [Bool.and_eq_true, Bool.or_eq_true, beq_iff_eq] at hat
    obtain ⟨⟨⟨⟨-, rfl⟩, rfl⟩, hab⟩, -⟩ := hat
    have hnext : tail.head? ≠ some a := fun hhead =>
      hab.elim (htail a hhead).1 (htail a hhead).2
    match s, h.ne_nil with
    | [x], _ =>
      cases heq
      exact hnext rfl
    | [x, y], _ =>
      cases heq
      exact hnext rfl
    | x :: y :: z :: s, _ =>
      cases heq
      rcases hab with rfl | rfl
      · exact hmarker.1 rfl
      · exact hmarker.2 rfl
  · exact absurd hat nofun

private theorem digit_spec {c : Char} (h : Text.isDigit c = true) :
    (isPrintable c = true ∧ isBreak c = false ∧ isGap (some c) = false) ∧
      Traits.isLeadingIndicator c = false ∧ c ∉ [' ', ':', '#', '.', '-', '?'] :=
  Text.of_isDigit (P := fun c =>
    (isPrintable c = true ∧ isBreak c = false ∧ isGap (some c) = false) ∧
      Traits.isLeadingIndicator c = false ∧ c ∉ [' ', ':', '#', '.', '-', '?'])
    (by decide) h

/-- An integer can stand without quotes. -/
theorem unquoted_integer (i : Int) : Unquoted (Text.integer i) := by
  have hmem : ∀ c ∈ Text.integer i, Text.isDigit c = true ∨ c = '-' := by
    intro c hc
    rw [Text.integer] at hc
    split at hc
    · exact (List.mem_cons.mp hc).symm.imp_left Text.isDigit_of_mem_decimal
    · exact .inl (Text.isDigit_of_mem_decimal hc)
  have hnot : ∀ d ∈ [' ', ':', '#', '.'], d ∉ Text.integer i := by
    intro d hd hin
    rcases hmem d hin with hdigit | rfl
    · exact (digit_spec hdigit).2.2 (List.mem_append_left ['-', '?'] hd)
    · exact absurd hd (by decide)
  obtain ⟨d, ds, hdigits, hd⟩ :
      ∃ d ds, Text.decimal i.natAbs = d :: ds ∧ Text.isDigit d = true := by
    cases hdigits : Text.decimal i.natAbs with
    | nil => exact absurd hdigits (Text.decimal_ne_nil _)
    | cons d ds => exact ⟨d, ds, rfl, Text.isDigit_of_mem_decimal (hdigits ▸ List.mem_cons_self)⟩
  have hd' := digit_spec hd
  refine ⟨⟨fun c hc => ?_, fun a t heq => ?_, fun a t heq => ?_, fun heq => ?_⟩, ?_, fun heq => ?_,
    fun c t heq => ?_, ?_⟩
  · rcases hmem c hc with hdigit | rfl
    · exact ⟨(digit_spec hdigit).1.1, (digit_spec hdigit).1.2.1⟩
    · decide
  · exact absurd (heq ▸ List.mem_append_right a List.mem_cons_self) (hnot ':' (by decide))
  · exact absurd (heq ▸ List.mem_append_right a List.mem_cons_self) (hnot '#' (by decide))
  · exact hnot ' ' (by decide) (List.mem_of_getLast? heq)
  · rw [Text.integer, hdigits]
    split <;> exact nofun
  · exact hnot ' ' (by decide) (List.mem_of_head? heq)
  · rw [Text.integer, hdigits] at heq
    split at heq
    · obtain ⟨rfl, rfl⟩ := List.cons.inj heq
      simpa [Traits.startsIndicator, Traits.isLeadingIndicator] using hd'.1.2.2
    · obtain ⟨rfl, rfl⟩ := List.cons.inj heq
      have hne := hd'.2.2
      simp only [List.mem_cons, List.not_mem_nil, or_false, not_or] at hne
      simp [Traits.startsIndicator, hd'.2.1, hne]
  · have hdash : d ≠ '-' := fun heq => hd'.2.2 (by simp [heq])
    rw [Traits.startsMarker, Bool.or_eq_false_iff, beq_eq_false_iff_ne, beq_eq_false_iff_ne]
    refine ⟨fun heq => ?_, fun heq => ?_⟩
    · rw [Text.integer, hdigits] at heq
      split at heq
      · exact hdash (List.cons.inj (List.cons.inj heq).2).1
      · exact hdash (List.cons.inj heq).1
    · exact hnot '.' (by decide) (List.mem_of_mem_take (heq ▸ List.mem_cons_self))

end Mishap.Yaml
