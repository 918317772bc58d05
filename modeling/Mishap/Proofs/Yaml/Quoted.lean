import Mishap.Proofs.Yaml.Gaps

/-!
# Quoted scalars

What the writer puts between quotes is read back as the text: between double quotes every text
(`quotedFrom?_double`), between single quotes one that the writer allows there
(`quotedFrom?_single`). Both go run by run, a run being what stands between two gaps.
-/

namespace Mishap.Yaml

open Scalar Writer

/-- The mark around a quoted scalar. -/
def quote (single : Bool) : Char := if single then '\'' else '"'

/-! ### Runs -/

/-- A character is read back from how it is written between quotes. -/
def ReadAs (single : Bool) (written : List Char) (c : Char) : Prop :=
  ∀ fuel m t, quotedRun? single (fuel + 1) m (written ++ t) =
    (quotedRun? single fuel (m.past written) t).map fun r => (c :: r.1, r.2)

/-- No run goes on with this text. -/
def StopsRun (single : Bool) (s : List Char) : Prop :=
  ∀ fuel m, quotedRun? single fuel m s = some ([], false, m, s)

private theorem quotedRun?_flatMap {single : Bool} {enc : Char → List Char} {run rest : List Char}
    (henc : ∀ c ∈ run, ReadAs single (enc c) c) (hstop : StopsRun single rest) (m : Mark)
    {fuel : Nat} (hfuel : run.length ≤ fuel) :
    quotedRun? single fuel m (run.flatMap enc ++ rest) =
      some (run, false, m.past (run.flatMap enc), rest) := by
  induction run generalizing m fuel with
  | nil => exact hstop fuel m
  | cons c run ih =>
    obtain ⟨fuel, rfl⟩ : ∃ f, fuel = f + 1 :=
      Nat.exists_eq_add_one.mpr (Nat.lt_of_lt_of_le (Nat.succ_pos _) hfuel)
    rw [List.flatMap_cons, List.append_assoc, henc c List.mem_cons_self,
      ih (fun d hd => henc d (List.mem_cons_of_mem c hd)) _ (Nat.le_of_succ_le_succ hfuel),
      Mark.past_append]
    rfl

private theorem stopsRun_quote {single : Bool} {t : List Char}
    (h : single = true → t.head? ≠ some '\'') :
    StopsRun single (quote single :: t) := by
  intro fuel m
  cases fuel with
  | zero => rfl
  | succ fuel => cases single <;> simp_all [quotedRun?, quote, isSpace, isEnd]

private theorem stopsRun_gap {single : Bool} {c : Char} (h : (isSpace c || isEnd c) = true)
    (t : List Char) : StopsRun single (c :: t) := by
  intro fuel m
  cases fuel with
  | zero => rfl
  | succ fuel => simp [quotedRun?, Bool.or_eq_true _ _ ▸ h]

private theorem flatMap_blanks {enc : Char → List Char} (h : enc ' ' = [' ']) (k : Nat) :
    (blanks k).flatMap enc = blanks k := by
  induction k with
  | zero => rfl
  | succ k ih =>
    have hblanks : blanks (k + 1) = ' ' :: blanks k := List.replicate_succ
    rw [hblanks, List.flatMap_cons, h, ih]
    rfl

section

variable {single : Bool} {enc : Char → List Char} {run rest : List Char} {m : Mark} {fuel : Nat}

/-- The last run and the closing quote. -/
theorem quotedFrom?_last (hm : m.column ≠ 0) (hread : ∀ c ∈ run, ReadAs single (enc c) c)
    (hrest : single = true → rest.head? ≠ some '\'') (hfuel : run.length ≤ fuel) :
    quotedFrom? single (fuel + 1) m (run.flatMap enc ++ quote single :: rest) =
      some ⟨run, false, m.past (run.flatMap enc ++ [quote single]), rest⟩ := by
  have hne : run.flatMap enc ++ quote single :: rest ≠ [] :=
    List.append_ne_nil_of_right_ne_nil _ nofun
  rw [quotedFrom?, atMarker_of_column hm, List.isEmpty_eq_false_iff.mpr hne, if_neg (by decide),
    quotedRun?_flatMap hread (stopsRun_quote hrest) m hfuel, Mark.past_append]
  simp [quote]

private theorem quotedFrom?_gap {gap : List Char} {c : Char} {g : Gap} (hm : m.column ≠ 0)
    (hread : ∀ c ∈ run, ReadAs single (enc c) c) (hfuel : run.length ≤ fuel)
    (hhead : gap.head? = some c) (hc : (isSpace c || isEnd c) = true)
    (hgap : gap? 0 false (m.past (run.flatMap enc)) (gap ++ rest) = some g) :
    quotedFrom? single (fuel + 1) m (run.flatMap enc ++ (gap ++ rest)) =
      (quotedFrom? single fuel g.mark g.rest).map fun more =>
        { more with text := run ++ fold g.spaces g.breaks ++ more.text } := by
  obtain ⟨gap, rfl⟩ := List.head?_eq_some_iff.mp hhead
  have hne : run.flatMap enc ++ (c :: gap ++ rest) ≠ [] :=
    List.append_ne_nil_of_right_ne_nil _ nofun
  have hopen : ((c :: gap ++ rest).head? == some (if single then '\'' else '"')) = false := by
    refine beq_false_of_ne fun heq => ?_
    rw [Option.some.inj heq] at hc
    cases single <;> exact absurd hc (by decide)
  have hstop : StopsRun single (c :: gap ++ rest) := stopsRun_gap hc (gap ++ rest)
  rw [quotedFrom?, atMarker_of_column hm, List.isEmpty_eq_false_iff.mpr hne, if_neg (by decide),
    quotedRun?_flatMap hread hstop m hfuel]
  simp only [Option.bind_eq_bind, Option.bind_some, hopen, Bool.false_and, Bool.false_eq_true,
    if_false]
  rw [hgap]
  simp only [Option.bind_some]
  cases quotedFrom? single fuel g.mark g.rest <;> rfl

/-- A run and the blanks behind it, which stand for themselves. -/
theorem quotedFrom?_spaces (hm : m.column ≠ 0) (hread : ∀ c ∈ run, ReadAs single (enc c) c)
    (hfuel : run.length ≤ fuel) (hrest : Solid rest) (k : Nat) :
    quotedFrom? single (fuel + 1) m (run.flatMap enc ++ (blanks (k + 1) ++ rest)) =
      (quotedFrom? single fuel (m.past (run.flatMap enc ++ blanks (k + 1))) rest).map fun more =>
        { more with text := run ++ blanks (k + 1) ++ more.text } := by
  rw [quotedFrom?_gap hm hread hfuel rfl rfl (gap?_blanks hrest 0 false (k + 1) _),
    Mark.past_append]
  rfl

/-- A run and the line ends behind it, which stand for themselves without the indentation of the
next line. -/
theorem quotedFrom?_breaks (hm : m.column ≠ 0) (hread : ∀ c ∈ run, ReadAs single (enc c) c)
    (hrest : Solid rest) {breaks : List Char} (hbreaks : ∀ c ∈ breaks, isEnd c = true)
    (hne : breaks ≠ []) (hline : '\n' ∉ breaks) (indent : Nat) :
    ∃ m', m'.column = indent ∧ m.line ≤ m'.line ∧ ∀ fuel, run.length ≤ fuel →
      quotedFrom? single (fuel + 1) m (run.flatMap enc ++ (breaks ++ blanks indent ++ rest)) =
        (quotedFrom? single fuel m' rest).map fun more =>
          { more with text := run ++ breaks ++ more.text } := by
  obtain ⟨m', hcolumn, hlater, hgap⟩ :=
    gap?_breaks hbreaks hne hrest 0 false indent (m.past (run.flatMap enc))
  obtain ⟨c, breaks, rfl⟩ := List.exists_cons_of_ne_nil hne
  have hfold : fold [] (c :: breaks) = c :: breaks := by
    have hc : c ≠ '\n' := fun heq => hline (heq ▸ List.mem_cons_self)
    unfold fold
    split <;> simp_all
  refine ⟨m', hcolumn, (m.past_eq _).1 ▸ hlater, fun fuel hfuel => ?_⟩
  rw [quotedFrom?_gap hm hread hfuel rfl (by rw [hbreaks c List.mem_cons_self, Bool.or_true]) hgap,
    hfold]

end

/-! ### Double quotes -/

private theorem coded_hexUpper {n : Nat} (hn : n ≤ 0xFF) :
    (Text.hexUpper 2 n).length = 2 ∧ (∀ d ∈ Text.hexUpper 2 n, 0x20 < d.toNat ∧ d.toNat < 0x7F) ∧
      ∀ t, escape?.coded 2 (Text.hexUpper 2 n ++ t) = some (Char.ofNat n, 3) := by
  have hwritten : ∀ m < 256, Text.hexUpper 2 m =
      [(m / 16).digitChar.toUpper, (m % 16).digitChar.toUpper] := by
    decide +kernel
  have hdigit : ∀ d < 16, Text.hexValue? d.digitChar.toUpper = some d ∧
      0x20 < d.digitChar.toUpper.toNat ∧ d.digitChar.toUpper.toNat < 0x7F := by
    decide
  obtain ⟨hhigh, hhighChar⟩ := hdigit (n / 16) (by omega)
  obtain ⟨hlow, hlowChar⟩ := hdigit (n % 16) (by omega)
  rw [hwritten n (by omega)]
  refine ⟨rfl, ?_, fun t => ?_⟩
  · exact List.forall_mem_cons.mpr ⟨hhighChar, List.forall_mem_cons.mpr ⟨hlowChar, nofun⟩⟩
  · have hvalue : hexDigits? 2 ([(n / 16).digitChar.toUpper, (n % 16).digitChar.toUpper] ++ t) =
        some n := by
      simp [hexDigits?, hhigh, hlow]
      omega
    rw [escape?.coded, hvalue]
    simp only [Option.bind_eq_bind, Option.bind_some]
    rw [if_neg (by omega)]

private theorem toNat_of_not_isPrintable {c : Char} (hp : isPrintable c = false)
    (hc : 0xFF < c.toNat) : c = '\uFEFF' ∨ c = '\uFFFE' ∨ c = '\uFFFF' := by
  -- Beyond the first 256 characters only three need an escape.
  have hvalid := c.valid
  have hnat : c.toNat = c.val.toNat := rfl
  simp [isPrintable] at hp
  have hcases : c.toNat = 0xFEFF ∨ c.toNat = 0xFFFE ∨ c.toNat = 0xFFFF := by
    simp [UInt32.isValidChar, Nat.isValidChar] at hvalid
    omega
  exact hcases.imp Char.toNat_inj.mp (Or.imp Char.toNat_inj.mp Char.toNat_inj.mp)

/-- A character is written between double quotes as itself, or as an escape that stands for it. -/
theorem doubleChar_cases (c : Char) :
    (doubleChar c = [c] ∧ isPrintable c = true ∧ isBreak c = false ∧ c ≠ '"' ∧ c ≠ '\\') ∨
      ∃ e, doubleChar c = '\\' :: e ∧ e ≠ [] ∧ e.length ≤ 5 ∧
        (∀ d ∈ e, 0x20 < d.toNat ∧ d.toNat < 0x7F) ∧
        ∀ t, escape? (e ++ t) = some (c, e.length) := by
  have hcoded : ∀ n ∈ [0xFEFF, 0xFFFE, 0xFFFF], ('u' :: Text.hexUpper 4 n).all
      (fun d => 0x20 < d.toNat && d.toNat < 0x7F) = true := by
    decide
  unfold doubleChar
  split
  case h_15 =>
    split
    · next hp =>
      left
      simp_all [isBreak]
    · next hp =>
      split
      · next hle =>
        obtain ⟨hlength, hchars, hread⟩ := coded_hexUpper hle
        refine .inr ⟨_, rfl, List.cons_ne_nil _ _, ?_,
          List.forall_mem_cons.mpr ⟨by decide, hchars⟩, fun t => ?_⟩
        · rw [List.length_cons, hlength]
          decide
        · rw [List.cons_append, escape?, hread, Char.ofNat_toNat, List.length_cons, hlength]
      · next hlt =>
        rcases toNat_of_not_isPrintable (Bool.eq_false_iff.mpr hp) (Nat.not_le.mp hlt) with
          rfl | rfl | rfl
        all_goals
          rw [if_pos (by decide)]
          refine .inr ⟨_, rfl, List.cons_ne_nil _ _, by decide, fun d hd => ?_, fun t => rfl⟩
          simpa using List.all_eq_true.mp (hcoded _ (by decide)) d hd
  all_goals
    exact .inr ⟨_, rfl, List.cons_ne_nil _ _, by decide,
      List.forall_mem_singleton.mpr (by decide), fun t => rfl⟩

private theorem readAs_double {c : Char} (hc : c ≠ ' ') : ReadAs false (doubleChar c) c := by
  intro fuel m t
  rcases doubleChar_cases c with ⟨heq, hprintable, hbreak, hquote, hescape⟩ |
    ⟨e, heq, hne, -, hchars, hread⟩
  · have hspace := isSpace_of_isPrintable hprintable
    have hend := isEnd_of_isPrintable hprintable
    rw [heq]
    simp [quotedRun?, hspace, hend, hc, hbreak, hquote, hescape, Mark.past_cons]
  · cases e with
    | nil => exact absurd rfl hne
    | cons d e =>
      have hend : isEnd d = false := by
        have hd := hchars d List.mem_cons_self
        simp only [isEnd, Bool.or_eq_false_iff, beq_eq_false_iff_ne]
        refine ⟨⟨?_, ?_⟩, ?_⟩ <;> (rintro rfl; exact absurd hd (by decide))
      have hread' : escape? (d :: (e ++ t)) = some (c, e.length + 1) := hread t
      have hback : isSpace '\\' = false ∧ isEnd '\\' = false := by decide
      rw [heq]
      simp [quotedRun?, hback, hend, hread']
      cases quotedRun? false fuel (m.past ('\\' :: d :: e)) t <;> rfl

private theorem solid_double {w : List Char} (hw : w.head? ≠ some ' ') (t : List Char) :
    Solid (w.flatMap doubleChar ++ '"' :: t) := by
  cases w with
  | nil => exact solid_cons.mpr (by decide)
  | cons c w =>
    have hc : c ≠ ' ' := fun heq => hw (congrArg some heq)
    rw [List.flatMap_cons]
    rcases doubleChar_cases c with ⟨heq, hprintable, hbreak, -⟩ | ⟨e, heq, -⟩
    · rw [heq]
      exact solid_cons.mpr (gapless_of_isPrintable hprintable (beq_false_of_ne hc) hbreak)
    · rw [heq]
      exact solid_cons.mpr (by decide)

/-- A text is read back from between double quotes. -/
theorem quotedFrom?_double (s : List Char) {m : Mark} (hm : m.column ≠ 0) (t : List Char)
    {fuel : Nat} (hfuel : s.length < fuel) :
    quotedFrom? false fuel m (s.flatMap doubleChar ++ '"' :: t) =
      some ⟨s, false, m.past (s.flatMap doubleChar ++ ['"']), t⟩ := by
  obtain ⟨fuel, rfl⟩ : ∃ f, fuel = f + 1 := Nat.exists_eq_add_one.mpr (Nat.zero_lt_of_lt hfuel)
  induction s using blanks_induction generalizing m fuel with
  | last run hrun =>
    have hread : ∀ c ∈ run, ReadAs false (doubleChar c) c := fun c hc => readAs_double (hrun c hc)
    exact quotedFrom?_last hm hread nofun (Nat.le_of_lt_succ hfuel)
  | step run k w hrun hw ih =>
    have hread : ∀ c ∈ run, ReadAs false (doubleChar c) c := fun c hc => readAs_double (hrun c hc)
    have hlength : (run ++ (blanks (k + 1) ++ w)).length = run.length + (k + 1 + w.length) := by
      simp [blanks]
    have hblanks : (blanks (k + 1)).flatMap doubleChar = blanks (k + 1) :=
      flatMap_blanks rfl (k + 1)
    have hcolumn : (m.past (run.flatMap doubleChar ++ blanks (k + 1))).column ≠ 0 := by
      rw [Mark.column_past]
      omega
    obtain ⟨fuel, rfl⟩ : ∃ f, fuel = f + 1 := Nat.exists_eq_add_one.mpr (by omega)
    have hlater := ih hcolumn fuel (by omega)
    have hstep :=
      quotedFrom?_spaces hm hread (show run.length ≤ fuel + 1 by omega) (solid_double hw t) k
    rw [List.flatMap_append, List.flatMap_append, hblanks, List.append_assoc, List.append_assoc,
      hstep, hlater]
    simp [Mark.past_append]

/-! ### Single quotes -/

/-- One character between single quotes. -/
def singleChar (c : Char) : List Char := if c = '\'' then ['\'', '\''] else [c]

/-- A blank never stands beside a line end. -/
def Steady (s : List Char) : Prop :=
  ∀ a x y t, s = a ++ x :: y :: t →
    ¬ (x = ' ' ∧ isBreak y = true) ∧ ¬ (isBreak x = true ∧ y = ' ')

/-- The end of a steady text is steady. -/
theorem Steady.of_append {s a b : List Char} (h : Steady s) {t : List Char}
    (heq : s = a ++ (b ++ t)) : Steady b := by
  intro c x y u hb
  refine h (a ++ c) x y (u ++ t) ?_
  rw [heq, hb]
  simp

/-- So a gap is made of blanks or of line ends. -/
theorem Steady.gap {gap : List Char} (h : Steady gap)
    (hgap : ∀ c ∈ gap, (c == ' ' || isBreak c) = true) :
    (∀ c ∈ gap, c = ' ') ∨ ∀ c ∈ gap, isBreak c = true := by
  induction gap with
  | nil => exact .inl nofun
  | cons c gap ih =>
    have hc := hgap c List.mem_cons_self
    rw [Bool.or_eq_true, beq_iff_eq] at hc
    have hrest := ih (Steady.of_append h (a := [c]) (t := []) (by simp))
      fun d hd => hgap d (List.mem_cons_of_mem c hd)
    cases gap with
    | nil => exact hc.imp List.forall_mem_singleton.mpr List.forall_mem_singleton.mpr
    | cons d gap =>
      obtain ⟨hspace, hbreak⟩ := h [] c d gap rfl
      rcases hrest with hrest | hrest
      · refine .inl (List.forall_mem_cons.mpr ⟨?_, hrest⟩)
        exact hc.resolve_right fun hbreak' => hbreak ⟨hbreak', hrest d List.mem_cons_self⟩
      · refine .inr (List.forall_mem_cons.mpr ⟨?_, hrest⟩)
        exact hc.resolve_left fun hspace' => hspace ⟨hspace', hrest d List.mem_cons_self⟩

section

variable (indent : Nat) {run breaks w : List Char}

/-- A run without line ends is written character by character, before what follows it. -/
theorem singleBody_append (h : ∀ c ∈ run, isBreak c = false) (w : List Char) :
    singleBody indent false (run ++ w) = run.flatMap singleChar ++ singleBody indent false w := by
  induction run with
  | nil => rfl
  | cons c run ih =>
    have hc := h c List.mem_cons_self
    rw [List.cons_append, singleBody, hc, ih fun d hd => h d (List.mem_cons_of_mem c hd)]
    simp [singleChar]

private theorem singleBody_breaks (h : ∀ c ∈ breaks, isBreak c = true)
    (hw : ∀ c ∈ w.head?, isBreak c = false) {broken : Bool}
    (hbroken : broken = true ∨ breaks ≠ []) :
    singleBody indent broken (breaks ++ w) =
      breaks ++ blanks indent ++ singleBody indent false w := by
  induction breaks generalizing broken with
  | nil =>
    obtain rfl := hbroken.resolve_right fun hne => hne rfl
    cases w with
    | nil => simp [singleBody]
    | cons c w => simp [singleBody, hw c rfl]
  | cons c breaks ih =>
    have hrest := ih (fun d hd => h d (List.mem_cons_of_mem c hd)) (.inl rfl)
    rw [List.cons_append, singleBody, h c List.mem_cons_self, if_pos rfl, hrest]
    rfl

end

private theorem readAs_single {c : Char} (hc : isSpace c = false ∧ isEnd c = false) :
    ReadAs true (singleChar c) c := by
  intro fuel m t
  unfold singleChar
  split
  · next heq =>
    subst heq
    simp [quotedRun?, hc]
  · next hne => simp [quotedRun?, hc, hne, Mark.past_cons]

private theorem solid_single (indent : Nat) {w : List Char}
    (hprintable : Printable w) (hw : ∀ c ∈ w.head?, (c == ' ' || isBreak c) = false)
    (t : List Char) :
    Solid (singleBody indent false w ++ '\'' :: t) := by
  cases w with
  | nil => exact solid_cons.mpr (by decide)
  | cons c w =>
    have hp := hprintable c List.mem_cons_self
    obtain ⟨hspace, hbreak⟩ := Bool.or_eq_false_iff.mp (hw c rfl)
    rw [singleBody, hbreak]
    simp only [Bool.false_eq_true, if_false, List.nil_append]
    split
    · exact solid_cons.mpr (by decide)
    · exact solid_cons.mpr (gapless_of_isPrintable hp hspace hbreak)

/-- A text is read back from between single quotes, before what follows the closing one. Without
line ends in it the reader only goes on in its line. -/
def ReadsSingle (indent : Nat) (t s : List Char) : Prop :=
  ∀ m : Mark, m.column ≠ 0 → ∃ m', m.line ≤ m'.line ∧
    ((∀ c ∈ s, isBreak c = false) → m' = m.past (singleBody indent false s ++ ['\''])) ∧
    ∀ fuel, s.length < fuel →
      quotedFrom? true fuel m (singleBody indent false s ++ '\'' :: t) = some ⟨s, false, m', t⟩

section

variable {indent : Nat} {run w t : List Char}
  (hrun : ∀ c ∈ run, isPrintable c = true ∧ (c == ' ' || isBreak c) = false)

include hrun

private theorem readAs_single_run : ∀ c ∈ run, ReadAs true (singleChar c) c := by
  intro c hc
  obtain ⟨hprintable, hgap⟩ := hrun c hc
  obtain ⟨hspace, hbreak⟩ := Bool.or_eq_false_iff.mp hgap
  exact readAs_single (gapless_of_isPrintable hprintable hspace hbreak)

private theorem singleBody_run (w : List Char) :
    singleBody indent false (run ++ w) = run.flatMap singleChar ++ singleBody indent false w :=
  singleBody_append indent (fun c hc => (Bool.or_eq_false_iff.mp (hrun c hc).2).2) w

private theorem readsSingle_run (ht : t.head? ≠ some '\'') : ReadsSingle indent t run := by
  intro m hm
  have hbody : singleBody indent false (run ++ []) =
      run.flatMap singleChar ++ singleBody indent false [] := singleBody_run hrun []
  rw [List.append_nil, singleBody, if_neg Bool.false_ne_true, List.append_nil] at hbody
  rw [hbody]
  refine ⟨_, Nat.le_of_eq (m.past_eq _).1.symm, fun _ => rfl, fun fuel hfuel => ?_⟩
  obtain ⟨fuel, rfl⟩ : ∃ f, fuel = f + 1 := Nat.exists_eq_add_one.mpr (Nat.zero_lt_of_lt hfuel)
  exact quotedFrom?_last hm (readAs_single_run hrun) (fun _ => ht) (Nat.le_of_lt_succ hfuel)

private theorem readsSingle_spaces {k : Nat}
    (hsolid : Solid (singleBody indent false w ++ '\'' :: t)) (hw : ReadsSingle indent t w) :
    ReadsSingle indent t (run ++ (blanks (k + 1) ++ w)) := by
  intro m hm
  have hblanks : ∀ c ∈ blanks (k + 1), isBreak c = false := fun c hc =>
    List.eq_of_mem_replicate hc ▸ by decide
  have hcolumn : (m.past (run.flatMap singleChar ++ blanks (k + 1))).column ≠ 0 := by
    rw [Mark.column_past]
    omega
  have hlength : (run ++ (blanks (k + 1) ++ w)).length = run.length + (k + 1 + w.length) := by
    simp [blanks]
  obtain ⟨m', hbelow, hmark, hrest⟩ := hw _ hcolumn
  rw [singleBody_run hrun, singleBody_append indent hblanks, flatMap_blanks rfl]
  refine ⟨m', (m.past_eq _).1 ▸ hbelow, fun hnone => ?_, fun fuel hfuel => ?_⟩
  · rw [hmark fun c hc => hnone c (List.mem_append_right _ (List.mem_append_right _ hc))]
    simp [Mark.past_append]
  · obtain ⟨fuel, rfl⟩ : ∃ f, fuel = f + 1 := Nat.exists_eq_add_one.mpr (Nat.zero_lt_of_lt hfuel)
    have hstep := quotedFrom?_spaces hm (readAs_single_run hrun) (show run.length ≤ fuel by omega)
      hsolid k
    rw [List.append_assoc, List.append_assoc, hstep, hrest fuel (by omega)]
    simp

private theorem readsSingle_breaks (hindent : indent ≠ 0) {breaks : List Char}
    (hbreaks : ∀ c ∈ breaks, isPrintable c = true ∧ isBreak c = true) (hne : breaks ≠ [])
    (hline : '\n' ∉ breaks) (hhead : ∀ c ∈ w.head?, isBreak c = false)
    (hsolid : Solid (singleBody indent false w ++ '\'' :: t)) (hw : ReadsSingle indent t w) :
    ReadsSingle indent t (run ++ (breaks ++ w)) := by
  intro m hm
  have hends : ∀ d ∈ breaks, isEnd d = true := fun d hd =>
    (isEnd_of_isPrintable (hbreaks d hd).1).trans (hbreaks d hd).2
  have hlength : (run ++ (breaks ++ w)).length = run.length + (breaks.length + w.length) := by simp
  have hpos := List.length_pos_iff.mpr hne
  obtain ⟨m₁, hcolumn, hbelow, hstep⟩ :=
    quotedFrom?_breaks hm (readAs_single_run hrun) hsolid hends hne hline indent
  obtain ⟨m', hbelow', -, hrest⟩ := hw m₁ (hcolumn ▸ hindent)
  rw [singleBody_run hrun,
    singleBody_breaks indent (fun c hc => (hbreaks c hc).2) hhead (.inr hne)]
  refine ⟨m', Nat.le_trans hbelow hbelow', fun hnone => ?_, fun fuel hfuel => ?_⟩
  · obtain ⟨c, breaks, rfl⟩ := List.exists_cons_of_ne_nil hne
    have hnot := hnone c (List.mem_append_right _ (List.mem_append_left _ List.mem_cons_self))
    exact absurd ((hbreaks c List.mem_cons_self).2.symm.trans hnot) nofun
  · obtain ⟨fuel, rfl⟩ : ∃ f, fuel = f + 1 := Nat.exists_eq_add_one.mpr (Nat.zero_lt_of_lt hfuel)
    rw [List.append_assoc, List.append_assoc, hstep fuel (by omega), hrest fuel (by omega)]
    simp

end

/-- A text that the writer allows there is read back from between single quotes. -/
theorem quotedFrom?_single {indent : Nat} (hindent : indent ≠ 0) {s : List Char}
    (hprintable : Printable s) (hline : '\n' ∉ s) (hsteady : Steady s)
    {t : List Char} (ht : t.head? ≠ some '\'') : ReadsSingle indent t s := by
  induction s using runs_induction (fun c => c == ' ' || isBreak c) with
  | last run hrun => exact readsSingle_run (fun c hc => ⟨hprintable c hc, hrun c hc⟩) ht
  | step run gap w hrun hgap hne hw ih =>
    have hchars : ∀ c ∈ run, isPrintable c = true ∧ (c == ' ' || isBreak c) = false :=
      fun c hc => ⟨hprintable c (List.mem_append_left _ hc), hrun c hc⟩
    have hgapin : ∀ c ∈ gap, c ∈ run ++ (gap ++ w) := fun c hc =>
      List.mem_append_right _ (List.mem_append_left _ hc)
    have hwin : ∀ c ∈ w, c ∈ run ++ (gap ++ w) := fun c hc =>
      List.mem_append_right _ (List.mem_append_right _ hc)
    have hsteadyw : Steady w :=
      hsteady.of_append (t := []) (by rw [← List.append_assoc, List.append_nil])
    have hsolid := solid_single indent (fun c hc => hprintable c (hwin c hc)) hw t
    have hlater := ih (fun c hc => hprintable c (hwin c hc)) (fun hc => hline (hwin _ hc)) hsteadyw
    rcases (hsteady.of_append (b := gap) rfl).gap hgap with hspaces | hbreaks
    · obtain ⟨k, rfl⟩ := exists_eq_blanks hspaces hne
      exact readsSingle_spaces hchars hsolid hlater
    · exact readsSingle_breaks hchars hindent
        (fun c hc => ⟨hprintable c (hgapin c hc), hbreaks c hc⟩) hne (fun hc => hline (hgapin _ hc))
        (fun c hc => (Bool.or_eq_false_iff.mp (hw c hc)).2) hsolid hlater

end Mishap.Yaml
