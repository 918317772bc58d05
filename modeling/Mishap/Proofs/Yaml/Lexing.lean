import Mishap.Proofs.Yaml.Style

/-!
# Steps of the lexer

A lexer leads to another if it goes on to the same tokens (`Lexer.Leads`). The lemmas say where one
token or one gap leads, outside brackets and with no key remembered: `Lexer.idle`.
-/

namespace Mishap.Yaml

open Scalar Writer

namespace Lexer

/-- Outside brackets, where no key is remembered. -/
abbrev idle (s : List Char) (m : Mark) (ts : List Token) (allowed : Bool) (i : Int)
    (is : List Int) : Lexer :=
  ⟨s, m, ts, none, [], allowed, i, is⟩

/-- Right before the next token: gaps are passed, keys forgotten and blocks closed. -/
def settle? (l : Lexer) : Option Lexer :=
  l.toToken.forgetStale?.map fun l => l.closeBlocks l.mark.column

/-- What is done once the lexer has settled. -/
def proceed? (fuel : Nat) (l : Lexer) : Option (List Token) :=
  match l.rest with
  | [] => l.finish?
  | c :: s => (l.token? fuel c s).bind (run? fuel)

/-- A lexer settles, and then goes on with what comes. -/
theorem run?_succ (fuel : Nat) (l : Lexer) :
    run? (fuel + 1) l = l.settle?.bind (proceed? fuel) := by
  rw [run?, settle?]
  cases l.toToken.forgetStale? <;> rfl

/-- The lexer goes on to the same tokens as another. -/
def Leads (l l' : Lexer) : Prop :=
  ∀ fuel, l.rest.length < fuel → ∃ fuel', l'.rest.length < fuel' ∧ run? fuel l = run? fuel' l'

/-- A lexer leads to itself in no step. -/
theorem Leads.refl (l : Lexer) : Leads l l := fun fuel hfuel => ⟨fuel, hfuel, rfl⟩

/-- Steps of a lexer follow one another. -/
theorem Leads.trans {l₁ l₂ l₃ : Lexer} (h : Leads l₁ l₂) (h' : Leads l₂ l₃) : Leads l₁ l₃ := by
  intro fuel hfuel
  obtain ⟨fuel₂, hfuel₂, hrun⟩ := h fuel hfuel
  obtain ⟨fuel₃, hfuel₃, hrun'⟩ := h' fuel₂ hfuel₂
  exact ⟨fuel₃, hfuel₃, hrun.trans hrun'⟩

/-- Lexers that settle alike go on alike. -/
theorem Leads.of_settle {l l' : Lexer} (h : l.settle? = l'.settle?)
    (hlength : l'.rest.length ≤ l.rest.length) : Leads l l' := by
  intro fuel hfuel
  obtain ⟨fuel, rfl⟩ : ∃ f, fuel = f + 1 := Nat.exists_eq_add_one.mpr (Nat.zero_lt_of_lt hfuel)
  exact ⟨fuel + 1, Nat.lt_of_le_of_lt hlength hfuel, by rw [run?_succ, run?_succ, h]⟩

/-- One token. -/
theorem Leads.of_token {l l' l₀ : Lexer} {c : Char} {s : List Char} (hsettle : l.settle? = some l₀)
    (hrest : l₀.rest = c :: s)
    (htoken : ∀ fuel, l.rest.length ≤ fuel → l₀.token? fuel c s = some l')
    (hlength : l'.rest.length < l.rest.length) : Leads l l' := by
  intro fuel hfuel
  obtain ⟨fuel, rfl⟩ : ∃ f, fuel = f + 1 := Nat.exists_eq_add_one.mpr (Nat.zero_lt_of_lt hfuel)
  refine ⟨fuel, by omega, ?_⟩
  rw [run?_succ, hsettle, Option.bind_some, proceed?, hrest]
  simp only [htoken fuel (by omega), Option.bind_some]

/-! ### Gaps -/

/-- A text that begins with no blank, no line end and nothing that is passed over. -/
def Fresh (s : List Char) : Prop :=
  ∀ c ∈ s.head?, isSpace c = false ∧ isEnd c = false ∧ c ≠ '#' ∧ c ≠ byteOrderMark

/-- A fresh text is solid. -/
theorem Fresh.solid {s : List Char} (h : Fresh s) : Solid s :=
  fun c hc => ⟨(h c hc).1, (h c hc).2.1⟩

/-- The end of the text is fresh. -/
theorem fresh_nil : Fresh [] := nofun

/-- A text is fresh if it begins with no blank, line end, comment or byte order mark. -/
theorem fresh_cons {c : Char} {s : List Char}
    (h : isSpace c = false ∧ isEnd c = false ∧ c ≠ '#' ∧ c ≠ byteOrderMark) : Fresh (c :: s) :=
  fun _ hd => Option.some.inj hd ▸ h

/-- A text that begins with a printable character is fresh, unless that begins a gap or a
comment. -/
theorem fresh_of_isPrintable {c : Char} {s : List Char} (h : isPrintable c = true)
    (hbreak : isBreak c = false) (hspace : c ≠ ' ') (hhash : c ≠ '#') : Fresh (c :: s) := by
  refine fresh_cons ⟨?_, (isEnd_of_isPrintable h).trans hbreak, hhash, ?_⟩
  · rw [isSpace_of_isPrintable h, beq_false_of_ne hspace]
  · rintro rfl
    exact absurd h (by decide)

/-- Before a fresh text there is no gap to skip. -/
theorem skipGap_of_fresh {s : List Char} (h : Fresh s) (flow allowed : Bool) (m : Mark) :
    skipGap flow allowed false m s = (allowed, m, s) := by
  cases s with
  | nil => rfl
  | cons c s =>
    obtain ⟨hspace, hend, hhash, hmark⟩ := h c rfl
    simp only [isSpace, Bool.or_eq_false_iff] at hspace
    rw [skipGap, hend, hspace.1, hspace.2, beq_false_of_ne hhash, beq_false_of_ne hmark]
    rfl

private theorem skipGap_blanks (flow allowed : Bool) (n : Nat) (m : Mark) (s : List Char) :
    skipGap flow allowed false m (blanks n ++ s) =
      skipGap flow allowed false (m.past (blanks n)) s := by
  induction n generalizing m with
  | zero => rfl
  | succ n ih =>
    have hblanks : blanks (n + 1) = ' ' :: blanks n := List.replicate_succ
    rw [hblanks, List.cons_append, skipGap, if_neg (by decide), if_neg (by decide)]
    exact (if_pos rfl).trans (ih (m.next ' '))

section

variable {s : List Char} {m : Mark} {ts : List Token} {k? : Option SimpleKey} {allowed : Bool}
  {i : Int} {is : List Int}

/-- No block is closed at a column that is not to the left of the innermost one. -/
theorem closeBlocks_of_le (l : Lexer) {column : Int} (h : l.indent ≤ column) :
    l.closeBlocks column = l := by
  rw [closeBlocks]
  split
  · rfl
  · cases l.indents with
    | nil => rfl
    | cons j js => exact if_neg (Int.not_lt.mpr h)

/-- At the start of a token nothing is passed, and a key is forgotten if it is not possible any
longer. -/
theorem settle?_fresh (h : Fresh s) (hi : i ≤ m.column) :
    (⟨s, m, ts, k?, [], allowed, i, is⟩ : Lexer).settle? =
      (stillKey? m k?).map fun k? => ⟨s, m, ts, k?, [], allowed, i, is⟩ := by
  have htoken : (⟨s, m, ts, k?, [], allowed, i, is⟩ : Lexer).toToken =
      ⟨s, m, ts, k?, [], allowed, i, is⟩ := by
    simp only [toToken, skipGap_of_fresh h]
  rw [settle?, htoken, forgetStale?]
  cases stillKey? m k? with
  | none => rfl
  | some k? => exact congrArg some (closeBlocks_of_le _ hi)

/-- A blank before a token. -/
theorem leads_blank :
    Leads (idle (' ' :: s) m ts allowed i is) (idle s (m.next ' ') ts allowed i is) := by
  refine .of_settle ?_ (Nat.le_succ _)
  have htoken : (idle (' ' :: s) m ts allowed i is).toToken =
      (idle s (m.next ' ') ts allowed i is).toToken := by
    have hskip := skipGap_blanks false allowed 1 m s
    simp only [toToken]
    exact congrArg (fun r : Bool × Mark × List Char =>
      (⟨r.2.2, r.2.1, ts, none, [], r.1, i, is⟩ : Lexer)) hskip
  rw [settle?, settle?, htoken]

/-- Where no key was possible none is lost. -/
@[simp] theorem stillKey?_none (m : Mark) : stillKey? m none = some none := rfl

/-- A key that is not required is forgotten on a later line. -/
theorem stillKey?_of_later (h : ∀ k ∈ k?, k.required = false ∧ k.mark.line < m.line) :
    stillKey? m k? = some none := by
  cases k? with
  | none => rfl
  | some k =>
    obtain ⟨hrequired, hline⟩ := h k rfl
    simp [stillKey?, hrequired, hline]

/-- On a new line a key that is not required is forgotten. -/
theorem leads_forget (hs : Fresh s) (h : ∀ k ∈ k?, k.required = false ∧ k.mark.line < m.line) :
    Leads ⟨s, m, ts, k?, [], allowed, i, is⟩ (idle s m ts allowed i is) := by
  refine .of_settle ?_ (Nat.le_refl _)
  have htoken : ∀ k? : Option SimpleKey, (⟨s, m, ts, k?, [], allowed, i, is⟩ : Lexer).toToken =
      ⟨s, m, ts, k?, [], allowed, i, is⟩ := fun k? => by
    simp only [toToken, skipGap_of_fresh hs]
  rw [settle?, settle?, htoken, htoken, forgetStale?, forgetStale?, stillKey?_of_later h,
    stillKey?_none]

/-- The end of a line, and the blanks of the next one. A key may begin there. -/
theorem leads_line (hs : Fresh s) (h : ∀ k ∈ k?, k.required = false ∧ k.mark.line ≤ m.line)
    (c : Nat) :
    Leads ⟨'\n' :: (blanks c ++ s), m, ts, k?, [], allowed, i, is⟩
      (idle s ((m.nextLine '\n').past (blanks c)) ts true i is) := by
  have htoken : (⟨'\n' :: (blanks c ++ s), m, ts, k?, [], allowed, i, is⟩ : Lexer).toToken =
      (⟨s, (m.nextLine '\n').past (blanks c), ts, k?, [], true, i, is⟩ : Lexer).toToken := by
    have hskip : skipGap false allowed false m ('\n' :: (blanks c ++ s)) =
        skipGap false true false ((m.nextLine '\n').past (blanks c)) s := by
      rw [skipGap, if_pos (by decide), skipGap_blanks, Bool.not_false, Bool.or_true]
    simp only [toToken]
    exact congrArg (fun r : Bool × Mark × List Char =>
      (⟨r.2.2, r.2.1, ts, k?, [], r.1, i, is⟩ : Lexer)) hskip
  have hlength : s.length ≤ ('\n' :: (blanks c ++ s)).length := by
    simp only [List.length_cons, List.length_append]
    omega
  refine (Leads.of_settle (by rw [settle?, settle?, htoken]) hlength).trans
    (leads_forget hs fun k hk => ⟨(h k hk).1, ?_⟩)
  rw [(Mark.past_eq _ _).1]
  exact Nat.lt_succ_of_le (h k hk).2

/-- A line that is less indented than the innermost block closes it. -/
theorem leads_close (hs : Fresh s) {j : Int} (h : (m.column : Int) < i) :
    Leads (idle s m ts allowed i (j :: is)) (idle s m (ts ++ [.blockEnd]) allowed j is) := by
  refine .of_settle ?_ (Nat.le_refl _)
  have hleft : (idle s m ts allowed i (j :: is)).toToken.forgetStale? =
      some (idle s m ts allowed i (j :: is)) := by
    simp [toToken, skipGap_of_fresh hs, forgetStale?]
  have hright : (idle s m (ts ++ [.blockEnd]) allowed j is).toToken.forgetStale? =
      some (idle s m (ts ++ [.blockEnd]) allowed j is) := by
    simp [toToken, skipGap_of_fresh hs, forgetStale?]
  rw [settle?, settle?, hleft, hright]
  simp [closeBlocks, closeBlocks.go, h, inFlow, emit]

/-! ### Marks of structure -/

/-- What opening a block at a column puts in front, if the column is deeper. -/
def opened (i : Int) (column : Nat) (t : Token) : List Token := if i < column then [t] else []

/-- The columns of the blocks around one at a column. -/
def around (i : Int) (column : Nat) (is : List Int) : List Int := if i < column then i :: is else is

private theorem openBlock_eq (l : Lexer) (hflow : l.outer = []) {us vs : List Token}
    (htokens : l.tokens = us ++ vs) {column : Nat} (h : l.indent ≤ column) (t : Token) :
    l.openBlock column us.length t =
      { l with
        tokens := us ++ opened l.indent column t ++ vs, indent := column
        indents := around l.indent column l.indents } := by
  by_cases hlt : l.indent < column
  · simp [openBlock, inFlow, hflow, insertAt, htokens, opened, around, hlt]
  · have hsame : l.indent = column := by omega
    obtain ⟨s, m, ts, k?, outer, allowed, i, is⟩ := l
    obtain rfl : i = column := hsame
    simp [openBlock, inFlow, opened, around, ← htokens]

/-- The dash of an item. -/
theorem leads_dash (hs : atGap s = true) (hi : i ≤ m.column) :
    Leads (idle ('-' :: s) m ts true i is)
      (idle s (m.next '-') (ts ++ opened i m.column .blockListStart ++ [.blockItem]) true m.column
        (around i m.column is)) := by
  refine .of_token (settle?_fresh (fresh_cons (by decide)) hi) rfl (fun fuel _ => ?_)
    (Nat.lt_succ_self _)
  have hopen := openBlock_eq (idle ('-' :: s) m ts true i is) rfl (List.append_nil ts).symm hi
    .blockListStart
  simp [token?, atMarker_of_atGap hs, hs, blockMark?, inFlow, hopen, dropKey?, emit, skip, moveTo,
    Mark.past_cons]

/-- The question mark before a key. -/
theorem leads_question (hs : atGap s = true) (hi : i ≤ m.column) :
    Leads (idle ('?' :: s) m ts true i is)
      (idle s (m.next '?') (ts ++ opened i m.column .blockObjectStart ++ [.key]) true m.column
        (around i m.column is)) := by
  refine .of_token (settle?_fresh (fresh_cons (by decide)) hi) rfl (fun fuel _ => ?_)
    (Nat.lt_succ_self _)
  have hopen := openBlock_eq (idle ('?' :: s) m ts true i is) rfl (List.append_nil ts).symm hi
    .blockObjectStart
  simp [token?, atMarker_of_ne, hs, blockMark?, inFlow, hopen, dropKey?, emit, skip, moveTo,
    Mark.past_cons]

/-- The colon behind a key that stands behind a question mark. -/
theorem leads_colon (hs : atGap s = true) (hi : i = m.column) :
    Leads (idle (':' :: s) m ts true i is)
      (idle s (m.next ':') (ts ++ [.value]) true i is) := by
  refine .of_token (settle?_fresh (fresh_cons (by decide)) (Int.le_of_eq hi)) rfl (fun fuel _ => ?_)
    (Nat.lt_succ_self _)
  simp [token?, atMarker_of_ne, hs, colon?, openBlock, hi, inFlow, emit, skip, moveTo,
    Mark.past_cons]

/-- The colon behind a key that was remembered, on the same line and not too far away. The token of
the key is put in front of it. -/
theorem leads_colon_of_key (hs : atGap s = true) {us : List Token} {k : SimpleKey}
    (hplace : k.place = ts.length) (hline : k.mark.line = m.line)
    (hindex : m.index ≤ k.mark.index + 1024) (hcolumn : k.mark.column ≤ m.column)
    (hi : i ≤ k.mark.column) :
    Leads ⟨':' :: s, m, ts ++ us, some k, [], allowed, i, is⟩
      (idle s (m.next ':')
        (ts ++ opened i k.mark.column .blockObjectStart ++ .key :: us ++ [.value]) false
        k.mark.column (around i k.mark.column is)) := by
  have hstill : stillKey? m (some k) = some (some k) := by
    simp [stillKey?, hline, Nat.not_lt.mpr hindex]
  have hsettle : (⟨':' :: s, m, ts ++ us, some k, [], allowed, i, is⟩ : Lexer).settle? =
      some ⟨':' :: s, m, ts ++ us, some k, [], allowed, i, is⟩ := by
    rw [settle?_fresh (fresh_cons (by decide)) (by omega), hstill]
    rfl
  have hinsert :
      (⟨':' :: s, m, ts ++ us, some k, [], allowed, i, is⟩ : Lexer).insertAt k.place .key =
        ⟨':' :: s, m, ts ++ .key :: us, some k, [], allowed, i, is⟩ := by
    simp [insertAt, hplace]
  have hopen := openBlock_eq ⟨':' :: s, m, ts ++ .key :: us, some k, [], allowed, i, is⟩ rfl rfl hi
    .blockObjectStart
  refine .of_token hsettle rfl (fun fuel _ => ?_) (Nat.lt_succ_self _)
  rw [← hplace] at hopen
  simp [token?, atMarker_of_ne, hs, colon?, hinsert, hopen, inFlow, emit, skip, moveTo,
    Mark.past_cons]

end

end Lexer

end Mishap.Yaml
