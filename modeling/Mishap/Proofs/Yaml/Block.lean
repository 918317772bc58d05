import Mishap.Proofs.Yaml.Gaps

/-!
# Literal blocks

The lines of a literal block are read back as the text (`block?_literal`). The hints of the writer
say how deep the block is indented where its first line does not show that, and what becomes of the
line ends at its end.
-/

namespace Mishap.Yaml

open Scalar Writer

/-! ### The start of a line -/

section

variable (indent deepest : Nat) (rest : List Char)

private theorem blockGap?_blanks (n : Nat) (m : Mark) (hwithin : indent = 0 ∨ m.column + n ≤ indent)
    (hrest : ∀ c ∈ rest.head?, isEnd c = false ∧
      ((indent = 0 ∨ m.column + n < indent) → isSpace c = false)) :
    blockGap? indent deepest m (blanks n ++ rest) =
      some ([], max deepest (m.column + n), m.past (blanks n), rest) := by
  induction n generalizing m with
  | zero =>
    cases rest with
    | nil => rfl
    | cons c rest =>
      obtain ⟨hend, hspace⟩ := hrest c rfl
      have hstop : ∀ d, isSpace d = true →
          ¬ ((c == d) = true ∧ (indent == 0 || decide (m.column < indent)) = true) := by
        rintro d hd ⟨heq, hwithin⟩
        rw [beq_iff_eq.mp heq] at hspace
        have hnot := hspace (by simpa using hwithin)
        exact absurd (hd.symm.trans hnot) nofun
      have hblank := hstop ' ' rfl
      have htab := hstop '\t' rfl
      rw [← Bool.and_eq_true, Bool.not_eq_true] at hblank htab
      simp [blanks, blockGap?, hend, hblank, htab]
  | succ n ih =>
    have hblanks : blanks (n + 1) = ' ' :: blanks n := List.replicate_succ
    have hgo : (' ' == ' ' && (indent == 0 || decide (m.column < indent))) = true := by
      rw [beq_self_eq_true, Bool.true_and, Bool.or_eq_true, beq_iff_eq, decide_eq_true_eq]
      omega
    have hnext : (m.next ' ').column + n = m.column + (n + 1) := by
      simp only [Mark.next]
      omega
    have hlater := ih (m.next ' ') (by rwa [hnext]) (by rwa [hnext])
    rw [hblanks, List.cons_append, blockGap?, hgo, if_pos rfl, hlater, hnext, Mark.past_cons]

/-- Empty lines are taken as their line ends, and then the indentation of the next line. -/
theorem blockGap?_append {breaks : List Char} (hbreaks : ∀ c ∈ breaks, isEnd c = true) (n : Nat)
    {m : Mark} (hm : m.column = 0) (hwithin : indent = 0 ∨ n ≤ indent)
    (hrest : ∀ c ∈ rest.head?, isEnd c = false ∧ ((indent = 0 ∨ n < indent) → isSpace c = false)) :
    ∃ m', m'.column = n ∧ blockGap? indent deepest m (breaks ++ (blanks n ++ rest)) =
      some (breaks, max deepest n, m', rest) := by
  induction breaks generalizing m deepest with
  | nil =>
    have hblanks := blockGap?_blanks indent deepest rest n m (by rwa [hm, Nat.zero_add])
      (by rwa [hm, Nat.zero_add])
    rw [hm, Nat.zero_add] at hblanks
    exact ⟨m.past (blanks n), by simp [hm, blanks], hblanks⟩
  | cons c breaks ih =>
    have hend := hbreaks c List.mem_cons_self
    have hne : c ≠ ' ' ∧ c ≠ '\t' := by
      constructor <;> (rintro rfl; exact absurd hend (by decide))
    obtain ⟨m', hcolumn, hlater⟩ := ih (max deepest m.column)
      (fun d hd => hbreaks d (List.mem_cons_of_mem c hd)) (m := m.nextLine c) rfl
    refine ⟨m', hcolumn, ?_⟩
    rw [hm, Nat.max_zero] at hlater
    simp [blockGap?, hne, hend, hm, hlater]

end

/-! ### Lines -/

section

variable {indent : Nat} {run breaks w : List Char}

private theorem literalBody_append (h : ∀ c ∈ run, isBreak c = false) (w : List Char) :
    literalBody indent false (run ++ w) = run ++ literalBody indent false w := by
  induction run with
  | nil => rfl
  | cons c run ih =>
    rw [List.cons_append, literalBody, h c List.mem_cons_self, if_neg Bool.false_ne_true,
      ih fun d hd => h d (List.mem_cons_of_mem c hd)]
    rfl

/-- The indentation of a line, if there is one. -/
def lineStart (indent : Nat) (w : List Char) : List Char := if w.isEmpty then [] else blanks indent

private theorem literalBody_breaks (h : ∀ c ∈ breaks, isBreak c = true)
    (hw : ∀ c ∈ w.head?, isBreak c = false) {fresh : Bool} (hfresh : fresh = true ∨ breaks ≠ []) :
    literalBody indent fresh (breaks ++ w) =
      breaks ++ (lineStart indent w ++ literalBody indent false w) := by
  induction breaks generalizing fresh with
  | nil =>
    obtain rfl := hfresh.resolve_right fun hne => hne rfl
    cases w with
    | nil => rfl
    | cons c w => simp [literalBody, lineStart, hw c rfl]
  | cons c breaks ih =>
    have hrest := ih (fun d hd => h d (List.mem_cons_of_mem c hd)) (.inl rfl)
    rw [List.cons_append, literalBody, h c List.mem_cons_self, if_pos rfl, hrest]
    rfl

/-- A line that does not start with a line end is written as it begins. -/
theorem head?_literalBody_append (hne : w ≠ []) (hw : ∀ c ∈ w.head?, isBreak c = false)
    (t : List Char) : (literalBody indent false w ++ t).head? = w.head? := by
  obtain ⟨c, w, rfl⟩ := List.exists_cons_of_ne_nil hne
  simp [literalBody, hw c rfl]

end

/-- What follows a block: a line that is not indented as deep. -/
structure EndsBlock (indent c : Nat) (s : List Char) : Prop where
  below : c < indent
  starts : Solid s

private theorem blockLines?_end {indent : Nat} {l : Lines} (h : l.mark.column ≠ indent)
    (fuel : Nat) (afterBlank : Bool) : blockLines? true indent fuel afterBlank l = some l := by
  cases fuel with
  | zero => rfl
  | succ fuel =>
    rw [blockLines?]
    split
    · rfl
    · rw [if_pos (bne_iff_ne.mpr h)]

/-- The lines of a literal block are read up to its end, from the text of a line on. The text ends
in line ends, of which the first belongs to its last line. -/
def ReadsLines (indent c : Nat) (s w : List Char) : Prop :=
  ∀ l : Lines, l.rest = literalBody indent false w ++ (blanks c ++ s) → l.mark.column = indent →
    ∃ body e trailing m', w = body ++ e :: trailing ∧ (∀ d ∈ e :: trailing, isBreak d = true) ∧
      m'.column = c ∧ ∀ fuel afterBlank, w.length ≤ fuel →
        blockLines? true indent fuel afterBlank l =
          some ⟨l.text ++ l.lineEnd.toList ++ l.trailing ++ body, some e, trailing, m', s⟩

section

variable {indent c : Nat} {s run trailing w : List Char} {e : Char}
  (hrun : ∀ d ∈ run, isPrintable d = true ∧ isBreak d = false) (hne : run ≠ [])
  (hgap : ∀ d ∈ e :: trailing, isPrintable d = true ∧ isBreak d = true)

include hrun hne hgap

private theorem blockLines?_line {l : Lines} (hcolumn : l.mark.column = indent) {n : Nat}
    {rest : List Char} (hrest : l.rest = run ++ e :: (trailing ++ (blanks n ++ rest)))
    (hwithin : n ≤ indent) (hstart : ∀ d ∈ rest.head?, isEnd d = false ∧
      ((indent = 0 ∨ n < indent) → isSpace d = false)) :
    ∃ m', m'.column = n ∧ ∀ fuel afterBlank, ∃ startsBlank,
      blockLines? true indent (fuel + 1) afterBlank l = blockLines? true indent fuel startsBlank
        ⟨l.text ++ l.lineEnd.toList ++ l.trailing ++ run, some e, trailing, m', rest⟩ := by
  have hends : ∀ d ∈ e :: trailing, isEnd d = true := fun d hd =>
    (isEnd_of_isPrintable (hgap d hd).1).trans (hgap d hd).2
  have he := hends e List.mem_cons_self
  obtain ⟨m', hm', hread⟩ := blockGap?_append indent 0 rest
    (fun d hd => hends d (List.mem_cons_of_mem e hd)) n (m := (l.mark.past run).nextLine e) rfl
    (.inr hwithin) hstart
  obtain ⟨d, run, rfl⟩ := List.exists_cons_of_ne_nil hne
  have hline : l.rest.takeWhile (fun c => !isEnd c) = d :: run := by
    have hnot : ∀ c ∈ d :: run, (!isEnd c) = true := fun c hc => by
      rw [isEnd_of_isPrintable (hrun c hc).1, (hrun c hc).2]
      rfl
    rw [hrest, List.takeWhile_append_of_pos hnot]
    simp [he]
  have hdrop : l.rest.drop (d :: run).length = e :: (trailing ++ (blanks n ++ rest)) := by
    rw [hrest, List.drop_left]
  have hat : (l.mark.column != indent) = false := by rw [hcolumn, bne_self_eq_false]
  refine ⟨m', hm', fun fuel afterBlank => ⟨isSpace d, ?_⟩⟩
  rw [blockLines?, hline]
  simp only [hdrop]
  rw [hrest]
  simp [hat, hread]

private theorem readsLines_last (hend : EndsBlock indent c s) :
    ReadsLines indent c s (run ++ (e :: trailing ++ [])) := by
  intro l hrest hcolumn
  rw [literalBody_append fun d hd => (hrun d hd).2,
    literalBody_breaks (fun d hd => (hgap d hd).2) (by simp)
      (.inr (List.cons_ne_nil e trailing))] at hrest
  have hwritten : l.rest = run ++ e :: (trailing ++ (blanks c ++ s)) := by
    simpa [lineStart, literalBody] using hrest
  obtain ⟨m', hm', hstep⟩ := blockLines?_line hrun hne hgap hcolumn hwritten
    (Nat.le_of_lt hend.below) fun d hd => ⟨(hend.starts d hd).2, fun _ => (hend.starts d hd).1⟩
  refine ⟨run, e, trailing, m', by simp, fun d hd => (hgap d hd).2, hm',
    fun fuel afterBlank hfuel => ?_⟩
  rw [List.length_append, List.length_append, List.length_cons] at hfuel
  obtain ⟨fuel, rfl⟩ : ∃ f, fuel = f + 1 := Nat.exists_eq_add_one.mpr (by omega)
  obtain ⟨startsBlank, hread⟩ := hstep fuel afterBlank
  rw [hread]
  exact blockLines?_end (hm' ▸ Nat.ne_of_lt hend.below) _ _

private theorem readsLines_line (hindent : indent ≠ 0) (hwne : w ≠ [])
    (hw : ∀ d ∈ w.head?, isPrintable d = true ∧ isBreak d = false) (h : ReadsLines indent c s w) :
    ReadsLines indent c s (run ++ (e :: trailing ++ w)) := by
  intro l hrest hcolumn
  have hstart : lineStart indent w = blanks indent :=
    if_neg (by rw [List.isEmpty_eq_false_iff.mpr hwne]; exact Bool.false_ne_true)
  rw [literalBody_append fun d hd => (hrun d hd).2,
    literalBody_breaks (fun d hd => (hgap d hd).2) (fun d hd => (hw d hd).2)
      (.inr (List.cons_ne_nil e trailing)), hstart] at hrest
  have hwritten : l.rest = run ++ e :: (trailing ++ (blanks indent ++
      (literalBody indent false w ++ (blanks c ++ s)))) := by
    simpa using hrest
  obtain ⟨m₁, hm₁, hstep⟩ := blockLines?_line hrun hne hgap hcolumn hwritten (Nat.le_refl indent)
    fun d hd => by
      rw [head?_literalBody_append hwne fun d hd => (hw d hd).2] at hd
      exact ⟨(isEnd_of_isPrintable (hw d hd).1).trans (hw d hd).2, fun hother => by omega⟩
  obtain ⟨body, e', trailing', m', rfl, hbreaks, hm', hlater⟩ := h
    ⟨l.text ++ l.lineEnd.toList ++ l.trailing ++ run, some e, trailing, m₁,
      literalBody indent false w ++ (blanks c ++ s)⟩ rfl hm₁
  refine ⟨run ++ e :: trailing ++ body, e', trailing', m', by simp, hbreaks, hm',
    fun fuel afterBlank hfuel => ?_⟩
  rw [List.length_append, List.length_append, List.length_cons] at hfuel
  obtain ⟨fuel, rfl⟩ : ∃ f, fuel = f + 1 := Nat.exists_eq_add_one.mpr (by omega)
  obtain ⟨startsBlank, hread⟩ := hstep fuel afterBlank
  rw [hread, hlater fuel startsBlank (by omega)]
  simp

end

/-- A text that begins with no line end and ends in one is read from its lines. -/
theorem readsLines {indent c : Nat} {s : List Char} (hend : EndsBlock indent c s) {w : List Char}
    (hprintable : Printable w) (hne : w ≠ [])
    (hfirst : ∀ d ∈ w.head?, isBreak d = false) (hlast : ∀ d ∈ w.getLast?, isBreak d = true) :
    ReadsLines indent c s w := by
  induction w using runs_induction isBreak with
  | last run hrun =>
    have hbreak := hlast _ (List.getLast?_eq_some_getLast hne)
    rw [hrun _ (List.getLast_mem hne)] at hbreak
    exact absurd hbreak nofun
  | step run gap w hrun hgap hgapne hw ih =>
    have hrunne : run ≠ [] := by
      rintro rfl
      obtain ⟨e, gap, rfl⟩ := List.exists_cons_of_ne_nil hgapne
      exact absurd (hgap e List.mem_cons_self) (by simp [hfirst e rfl])
    have hchars : ∀ d ∈ run, isPrintable d = true ∧ isBreak d = false := fun d hd =>
      ⟨hprintable d (List.mem_append_left _ hd), hrun d hd⟩
    have hends : ∀ d ∈ gap, isPrintable d = true ∧ isBreak d = true := fun d hd =>
      ⟨hprintable d (List.mem_append_right _ (List.mem_append_left _ hd)), hgap d hd⟩
    have hlater : Printable w := fun d hd =>
      hprintable d (List.mem_append_right _ (List.mem_append_right _ hd))
    obtain ⟨e, trailing, rfl⟩ := List.exists_cons_of_ne_nil hgapne
    by_cases hmore : w = []
    · subst hmore
      exact readsLines_last hchars hrunne hends hend
    · refine readsLines_line hchars hrunne hends (Nat.ne_zero_of_lt hend.below) hmore
        (fun d hd => ⟨hlater d (List.mem_of_head? hd), hw d hd⟩) (ih hlater hmore hw fun d hd => ?_)
      refine hlast d ?_
      rw [List.getLast?_append, List.getLast?_append, Option.mem_def.mp hd]
      rfl

/-! ### Hints -/

/-- What becomes of the line ends at the end of a text. -/
def chompOf (s : List Char) : Chomp :=
  match s.reverse with
  | [] => .strip
  | [c] => if isBreak c then .keep else .strip
  | c :: d :: _ => if !isBreak c then .strip else if isBreak d then .keep else .clip

/-- The first line does not show how deep the block is indented. -/
def hidesIndent (s : List Char) : Bool := s.head?.any fun c => c == ' ' || isBreak c

/-- The sign for the line ends. -/
def chompSign : Chomp → List Char
  | .strip => ['-']
  | .clip => []
  | .keep => ['+']

/-- The hints of a literal block are its indentation, if that cannot be seen, and what becomes of
its last line ends. -/
theorem literalHints_eq (s : List Char) :
    literalHints s = (if hidesIndent s then ['2'] else []) ++ chompSign (chompOf s) := by
  unfold literalHints chompOf
  dsimp only
  congr 1
  · cases s <;> simp [hidesIndent]
  · rcases s.reverse with _ | ⟨c, _ | ⟨d, r⟩⟩
    · rfl
    · cases hc : isBreak c <;> simp [hc, chompSign]
    · cases hc : isBreak c <;> cases hd : isBreak d <;> simp [hc, hd, chompSign]

/-- The hints are read back. -/
theorem blockHints?_literal (s t : List Char) :
    blockHints? (literalHints s ++ '\n' :: t) =
      some (chompOf s, if hidesIndent s then 2 else 0, '\n' :: t) := by
  rw [literalHints_eq]
  cases hidesIndent s <;> cases chompOf s <;> rfl

/-- The text with the line end behind it, which it may have in itself. -/
def closed (s : List Char) : List Char := if s.getLast?.any isBreak then s else s ++ ['\n']

private theorem literalBody_closed (indent : Nat) (s : List Char) :
    literalBody indent true s ++ (if s.getLast?.any isBreak then [] else ['\n']) =
      literalBody indent true (closed s) := by
  have hend : ∀ fresh, literalBody indent fresh s ++ ['\n'] =
      literalBody indent fresh (s ++ ['\n']) := by
    induction s with
    | nil => exact fun _ => rfl
    | cons c s ih =>
      intro fresh
      rw [List.cons_append, literalBody, literalBody]
      split
      · rw [List.cons_append, ih]
      · rw [List.append_assoc, List.cons_append, ih]
  unfold closed
  split
  · exact List.append_nil _
  · exact hend true

/-- What the hints say of the last characters. -/
theorem chompOf_cases {s : List Char} (hne : s ≠ []) :
    (∃ a c, s = a ++ [c] ∧ isBreak c = false ∧ chompOf s = .strip) ∨
      (∃ a d c, s = a ++ [d, c] ∧ isBreak d = false ∧ isBreak c = true ∧ chompOf s = .clip) ∨
      ∃ a c, s = a ++ [c] ∧ isBreak c = true ∧ chompOf s = .keep := by
  obtain ⟨r, rfl⟩ : ∃ r, s = r.reverse := ⟨s.reverse, s.reverse_reverse.symm⟩
  unfold chompOf
  rw [List.reverse_reverse]
  rcases r with _ | ⟨c, _ | ⟨d, r⟩⟩
  · exact absurd rfl hne
  · cases hc : isBreak c with
    | false => exact .inl ⟨[], c, rfl, hc, by simp [hc]⟩
    | true => exact .inr (.inr ⟨[], c, rfl, hc, by simp [hc]⟩)
  · have hsplit : (c :: d :: r).reverse = r.reverse ++ [d, c] := by simp
    rw [hsplit]
    cases hc : isBreak c with
    | false => exact .inl ⟨r.reverse ++ [d], c, by simp, hc, by simp [hc]⟩
    | true =>
      cases hd : isBreak d with
      | false => exact .inr (.inl ⟨r.reverse, d, c, rfl, hd, hc, by simp [hc, hd]⟩)
      | true => exact .inr (.inr ⟨r.reverse ++ [d], c, by simp, hc, by simp [hc, hd]⟩)

/-- With its line ends treated as the hints say, what was read is the text. -/
theorem chomp_eq {s text trailing : List Char} {e : Char} (hne : s ≠ [])
    (hclosed : closed s = text ++ e :: trailing) (hbreaks : ∀ d ∈ e :: trailing, isBreak d = true) :
    text ++ (match chompOf s with
      | .strip => []
      | .clip => [e]
      | .keep => e :: trailing) = s := by
  -- Of two line ends at the end, the first stands before the last as well.
  have hshort : ∀ {a x y}, a ++ [x, y] = text ++ e :: trailing → isBreak x = false →
      trailing = [] := by
    intro a x y heq hx
    rcases List.eq_nil_or_concat trailing with rfl | ⟨t, z, rfl⟩
    · rfl
    · have hboth : a ++ [x] ++ [y] = text ++ e :: t ++ [z] := by simpa using heq
      have hinit : a ++ [x] = text ++ e :: t := (List.append_inj' hboth rfl).1
      have hlast := congrArg List.getLast? hinit
      rw [List.getLast?_concat, List.getLast?_append, List.getLast?_cons, Option.some_or] at hlast
      have hmem : x ∈ e :: t := List.mem_of_getLast? (List.getLast?_cons.trans hlast.symm)
      have hbreak := hbreaks x (by simp at hmem ⊢; exact hmem.imp_right .inl)
      exact absurd (hbreak.symm.trans hx) nofun
  rcases chompOf_cases hne with ⟨a, c, rfl, hc, hchomp⟩ | ⟨a, d, c, rfl, hd, hc, hchomp⟩ |
    ⟨a, c, rfl, hc, hchomp⟩
  · have hopen : closed (a ++ [c]) = a ++ [c, '\n'] := by simp [closed, hc]
    rw [hopen] at hclosed
    obtain rfl := hshort hclosed hc
    have hboth : a ++ [c] ++ ['\n'] = text ++ [e] := by simpa using hclosed
    have htext := (List.append_inj' hboth rfl).1
    rw [hchomp, ← htext, List.append_nil]
  · have hopen : closed (a ++ [d, c]) = a ++ [d, c] := by simp [closed, hc]
    rw [hopen] at hclosed
    obtain rfl := hshort hclosed hd
    rw [hchomp, hclosed]
  · have hopen : closed (a ++ [c]) = a ++ [c] := by simp [closed, hc]
    rw [hchomp, ← hopen, hclosed]

/-! ### Blocks -/

private theorem printable_closed {s : List Char} (h : Printable s) : Printable (closed s) := by
  unfold closed
  split
  · exact h
  · exact printable_append.mpr ⟨h, by decide⟩

private theorem isBreak_getLast?_closed (s : List Char) :
    ∀ c ∈ (closed s).getLast?, isBreak c = true := by
  unfold closed
  split
  · next hbreak =>
    intro c hc
    rwa [Option.mem_def.mp hc] at hbreak
  · intro c hc
    rw [List.getLast?_concat] at hc
    exact Option.some.inj hc ▸ rfl

private theorem length_closed_le (s : List Char) : (closed s).length ≤ s.length + 1 := by
  unfold closed
  split <;> simp

/-- Of a text of line ends alone all are kept. -/
theorem chompOf_breaks {s : List Char} (hne : s ≠ []) (h : ∀ c ∈ closed s, isBreak c = true) :
    closed s = s ∧ chompOf s = .keep := by
  rcases chompOf_cases hne with ⟨a, c, rfl, hc, -⟩ | ⟨a, d, c, rfl, hd, hc, -⟩ |
    ⟨a, c, rfl, hc, hchomp⟩
  · have hbreak := h c (by simp [closed, hc])
    exact absurd (hbreak.symm.trans hc) nofun
  · have hbreak := h d (by simp [closed, hc])
    exact absurd (hbreak.symm.trans hd) nofun
  · exact ⟨by simp [closed, hc], hchomp⟩

private theorem blockLines?_text {s : List Char} (hne : s ≠ []) (hprintable : Printable s)
    {breaks w : List Char} (hsplit : closed s = breaks ++ w)
    (hbreaks : ∀ c ∈ breaks, isBreak c = true)
    (hw : ∀ c ∈ w.head?, isBreak c = false) {indent c : Nat} {t : List Char}
    (hend : EndsBlock indent c t) {m : Mark} (hm : m.column = if w.isEmpty then c else indent) :
    ∃ l, (∀ fuel, s.length < fuel → blockLines? true indent fuel false ⟨[], none, breaks, m,
        literalBody indent false w ++ (if w.isEmpty then [] else blanks c) ++ t⟩ = some l) ∧
      l.mark.column = c ∧ l.rest = t ∧
      l.text ++ (match chompOf s with
        | .strip => []
        | .clip => l.lineEnd.toList
        | .keep => l.lineEnd.toList ++ l.trailing) = s := by
  -- The lines of a block are read, with their line ends treated as the hints say.
  by_cases hempty : w = []
  · subst hempty
    rw [List.append_nil] at hsplit
    obtain ⟨hself, hkeep⟩ := chompOf_breaks hne (hsplit ▸ hbreaks)
    refine ⟨_, fun fuel _ => blockLines?_end (hm ▸ Nat.ne_of_lt hend.below) fuel false, hm, rfl, ?_⟩
    rw [hkeep]
    exact hsplit.symm.trans hself
  · have hsome : w.isEmpty = false := List.isEmpty_eq_false_iff.mpr hempty
    obtain ⟨-, hprintablew⟩ := printable_append.mp (hsplit ▸ printable_closed hprintable)
    have hlast : ∀ d ∈ w.getLast?, isBreak d = true := fun d hd => by
      refine isBreak_getLast?_closed s d ?_
      rw [hsplit, List.getLast?_append, Option.mem_def.mp hd]
      rfl
    have hlength : w.length ≤ s.length + 1 := by
      have hle := length_closed_le s
      rw [hsplit, List.length_append] at hle
      omega
    rw [hsome, if_neg Bool.false_ne_true] at hm ⊢
    obtain ⟨body, e, trailing, m', rfl, hends, hm', hread⟩ :=
      readsLines hend hprintablew hempty hw hlast
        ⟨[], none, breaks, m, literalBody indent false w ++ blanks c ++ t⟩
        (List.append_assoc _ _ _) hm
    refine ⟨_, fun fuel hfuel => hread fuel false (by omega), hm', rfl, ?_⟩
    rw [← List.append_assoc] at hsplit
    have hchomp := chomp_eq hne hsplit hends
    simpa using hchomp

private theorem restOfLine?_newline (m : Mark) (t : List Char) :
    ∃ m', m'.column = 0 ∧ restOfLine? m ('\n' :: t) = some (m', t) := by
  refine ⟨m.nextLine '\n', rfl, ?_⟩
  simp [restOfLine?, isSpace, isEnd]

private theorem first_of_not_hidesIndent {s : List Char} (hne : s ≠ []) {breaks w : List Char}
    (hsplit : closed s = breaks ++ w) (hbreaks : ∀ c ∈ breaks, isBreak c = true)
    (hhides : hidesIndent s = false) : breaks = [] ∧ w ≠ [] ∧ w.head? ≠ some ' ' := by
  -- Where no hint is given, the text begins with its first line, and that with no blank.
  obtain ⟨d, s, rfl⟩ := List.exists_cons_of_ne_nil hne
  have hclosed : ∃ r, closed (d :: s) = d :: r := by
    unfold closed
    split <;> exact ⟨_, rfl⟩
  obtain ⟨r, hr⟩ := hclosed
  obtain ⟨hspace, hbreak⟩ : (d == ' ') = false ∧ isBreak d = false := by
    simpa [hidesIndent] using hhides
  rw [hr] at hsplit
  cases breaks with
  | nil =>
    rw [List.nil_append] at hsplit
    subst hsplit
    exact ⟨rfl, List.cons_ne_nil d r, fun heq => by simp [Option.some.inj heq] at hspace⟩
  | cons b breaks =>
    obtain ⟨rfl, -⟩ := List.cons.inj hsplit
    exact absurd ((hbreaks d List.mem_cons_self).symm.trans hbreak) nofun

private theorem blockGap?_first {s : List Char} (hne : s ≠ []) (hprintable : Printable s)
    {breaks w : List Char} (hsplit : closed s = breaks ++ w)
    (hbreaks : ∀ c ∈ breaks, isBreak c = true)
    (hw : ∀ c ∈ w.head?, isBreak c = false) {level c : Nat} {t : List Char}
    (hend : EndsBlock (level + 2) c t) {m : Mark} (hm : m.column = 0) {indent : Nat}
    (hindent : indent = if hidesIndent s then level + 2 else 0) :
    ∃ m' deepest, m'.column = (if w.isEmpty then c else level + 2) ∧
      blockGap? indent 0 m (breaks ++ (lineStart (level + 2) w ++
        literalBody (level + 2) false w) ++ (blanks c ++ t)) =
        some (breaks, deepest, m', literalBody (level + 2) false w ++
          (if w.isEmpty then [] else blanks c) ++ t) ∧
      (if indent = 0 then max (max deepest (level + 1)) 1 else indent) = level + 2 := by
  -- The empty lines at the start of a block and the indentation of its first line are read, and the
  -- indentation is known after that if it was not before.
  obtain ⟨hprintablebreaks, hprintablew⟩ :=
    printable_append.mp (hsplit ▸ printable_closed hprintable)
  have hends : ∀ d ∈ breaks, isEnd d = true := fun d hd =>
    (isEnd_of_isPrintable (hprintablebreaks d hd)).trans (hbreaks d hd)
  have hshown := first_of_not_hidesIndent hne hsplit hbreaks
  by_cases hempty : w = []
  · have hhides : hidesIndent s = true :=
      Bool.not_eq_false _ ▸ fun hnot => (hshown hnot).2.1 hempty
    subst hempty
    rw [hhides, if_pos rfl] at hindent
    subst hindent
    obtain ⟨m', hm', hread⟩ := blockGap?_append (level + 2) 0 t hends c hm
      (.inr (Nat.le_of_lt hend.below))
      fun d hd => ⟨(hend.starts d hd).2, fun _ => (hend.starts d hd).1⟩
    exact ⟨m', _, hm', by simpa [lineStart, literalBody] using hread, if_neg (Nat.succ_ne_zero _)⟩
  · have hsome : w.isEmpty = false := List.isEmpty_eq_false_iff.mpr hempty
    have hstart : ∀ x ∈ (literalBody (level + 2) false w ++ (blanks c ++ t)).head?,
        isEnd x = false ∧ ((indent = 0 ∨ level + 2 < indent) → isSpace x = false) := by
      intro x hx
      rw [head?_literalBody_append hempty hw] at hx
      have hxprintable := hprintablew x (List.mem_of_head? hx)
      refine ⟨(isEnd_of_isPrintable hxprintable).trans (hw x hx), fun hunknown => ?_⟩
      have hhides : hidesIndent s = false := by
        rw [← Bool.not_eq_true]
        intro hhides
        rw [hhides, if_pos rfl] at hindent
        omega
      rw [isSpace_of_isPrintable hxprintable]
      exact beq_false_of_ne fun heq => (hshown hhides).2.2 (heq ▸ hx)
    have hwithin : indent = 0 ∨ level + 2 ≤ indent := by
      rw [hindent]
      split
      · exact .inr (Nat.le_refl _)
      · exact .inl rfl
    obtain ⟨m', hm', hread⟩ := blockGap?_append indent 0
      (literalBody (level + 2) false w ++ (blanks c ++ t)) hends (level + 2) hm hwithin hstart
    refine ⟨m', max 0 (level + 2), by rw [hsome]; exact hm', ?_, ?_⟩
    · rw [hsome, if_neg Bool.false_ne_true, lineStart, hsome, if_neg Bool.false_ne_true]
      simpa using hread
    · rw [hindent]
      split
      · rfl
      · rw [if_pos rfl]
        omega

/-- A text is read back from a literal block, below a parent that is indented by `level`. -/
theorem block?_literal {s : List Char} (hne : s ≠ []) (hprintable : Printable s)
    {level c : Nat} {t : List Char} (hend : EndsBlock (level + 2) c t) (m : Mark) :
    ∃ m', m'.column = c ∧ ∀ fuel, s.length < fuel → Scalar.block? level fuel m
        ('|' :: (literalHints s ++ '\n' :: (literalBody (level + 2) true s ++
          (if s.getLast?.any isBreak then [] else ['\n']) ++ (blanks c ++ t)))) =
      some ⟨s, true, m', t⟩ := by
  have hsplit : closed s = (closed s).takeWhile isBreak ++ (closed s).dropWhile isBreak :=
    List.takeWhile_append_dropWhile.symm
  have hbreaks : ∀ c ∈ (closed s).takeWhile isBreak, isBreak c = true := fun c hc =>
    List.all_eq_true.mp List.all_takeWhile c hc
  have hw : ∀ c ∈ ((closed s).dropWhile isBreak).head?, isBreak c = false := fun c hc => by
    have hnot := List.head?_dropWhile_not isBreak (closed s)
    rw [Option.mem_def.mp hc] at hnot
    simpa using hnot
  generalize (closed s).takeWhile isBreak = breaks, (closed s).dropWhile isBreak = w
    at hsplit hbreaks hw
  obtain ⟨m₀, hm₀, hline⟩ := restOfLine?_newline (m.past ('|' :: literalHints s))
    (breaks ++ (lineStart (level + 2) w ++ literalBody (level + 2) false w) ++ (blanks c ++ t))
  obtain ⟨m₁, deepest, hm₁, hfirst, hknown⟩ := blockGap?_first hne hprintable hsplit hbreaks hw hend
    hm₀ rfl
  obtain ⟨l, hlines, hcolumn, htail, htext⟩ :=
    blockLines?_text hne hprintable hsplit hbreaks hw hend hm₁
  refine ⟨l.mark, hcolumn, fun fuel hfuel => ?_⟩
  rw [literalBody_closed, hsplit, literalBody_breaks hbreaks hw (.inl rfl)]
  generalize hT : breaks ++ (lineStart (level + 2) w ++ literalBody (level + 2) false w) ++
    (blanks c ++ t) = T at hline hfirst
  have htake : ('|' :: (literalHints s ++ '\n' :: T)).take
      (('|' :: (literalHints s ++ '\n' :: T)).length - ('\n' :: T).length) =
      '|' :: literalHints s := by
    rw [← List.cons_append, List.length_append, Nat.add_sub_cancel, List.take_left]
  have hparent : (if 0 ≤ (level : Int) then (level : Int).toNat else 0) = level := by simp
  have hmore : (if (if hidesIndent s = true then 2 else 0) = 0 then 0
      else level + if hidesIndent s = true then 2 else 0) =
      if hidesIndent s = true then level + 2 else 0 := by
    cases hidesIndent s <;> rfl
  have hbelow : ((level : Int) + 1).toNat = level + 1 := rfl
  have hliteral : (('|' :: (literalHints s ++ '\n' :: T)).head? == some '|') = true := rfl
  rw [Scalar.block?]
  simp only [List.drop_succ_cons, List.drop_zero, blockHints?_literal, Option.bind_eq_bind,
    Option.bind_some, htake, hline, hparent, hmore, hfirst, hbelow, hknown, hliteral,
    hlines fuel hfuel]
  rw [htail]
  exact congrArg (fun text => some (Scanned.mk text true l.mark t)) htext

end Mishap.Yaml
