import Mishap.Proofs.Yaml.Lexing

/-!
# Tokens of written scalars and keys

A written text becomes one token that holds the text, in whichever style it was written, on a line
of its own (`leads_textLine`) or as the key of an entry (`leads_key`).
-/

namespace Mishap.Yaml

open Scalar Writer

namespace Lexer

section

variable {s : List Char} {m : Mark} {ts : List Token} {allowed : Bool} {i : Int} {is : List Int}

/-! ### Scalars -/

/-- The place of a scalar, if it may turn out to be a key. -/
def remembered (allowed : Bool) (i : Int) (m : Mark) (ts : List Token) : Option SimpleKey :=
  if allowed then some ⟨i == (m.column : Int), ts.length, m⟩ else none

/-- A scalar that was scanned is one token. -/
theorem leads_scalar {c : Char} {style : ScalarStyle}
    (scan : Nat → Mark → List Char → Option Scanned) (r : Scanned) (hs : Fresh (c :: s))
    (hi : i ≤ m.column)
    (htoken : ∀ fuel, (idle (c :: s) m ts allowed i is).token? fuel c s =
      (idle (c :: s) m ts allowed i is).scalar? style (scan fuel))
    (hscan : ∀ fuel, (c :: s).length ≤ fuel → scan fuel m (c :: s) = some r)
    (hlength : r.rest.length < (c :: s).length) :
    Leads (idle (c :: s) m ts allowed i is)
      ⟨r.rest, r.mark, ts ++ [.scalar style r.text], remembered allowed i m ts, [], r.broken, i,
        is⟩ := by
  refine .of_token (settle?_fresh hs hi) rfl (fun fuel hfuel => ?_) hlength
  rw [htoken, scalar?]
  cases allowed <;>
    simp [saveKey?, dropKey?, inFlow, remembered, hscan fuel hfuel, emit, moveTo]

private theorem atGap_of_unquoted {c : Char} {w : List Char} (h : Unquoted (c :: w))
    (hc : c = '?' ∨ c = ':' ∨ c = '-') (tail : List Char) : atGap (w ++ tail) = false := by
  have hgap := (Bool.or_eq_false_iff.mp (h.first c w rfl)).2
  cases w with
  | nil => rcases hc with rfl | rfl | rfl <;> exact absurd hgap (by decide)
  | cons d w =>
    refine atGap_of_isGap ?_
    rcases hc with rfl | rfl | rfl <;> simpa using hgap

private theorem startsPlain_of_unquoted {c : Char} {w : List Char} (h : Unquoted (c :: w))
    (tail : List Char) : startsPlain false c (w ++ tail) = true := by
  by_cases hc : c = '?' ∨ c = ':' ∨ c = '-'
  · have hnext := atGap_of_unquoted h hc tail
    have hspaced : (w ++ tail).head?.any isSpace = false := by
      cases hw : w ++ tail with
      | nil => rfl
      | cons d t =>
        rw [hw, atGap, Bool.or_eq_false_iff] at hnext
        exact hnext.1
    rw [startsPlain, hnext, hspaced]
    rcases hc with rfl | rfl | rfl <;> rfl
  · have hleading := (Bool.or_eq_false_iff.mp (h.first c w rfl)).1
    obtain ⟨hprintable, hbreak⟩ := h.printable c List.mem_cons_self
    have hne : c ≠ ' ' := fun heq => h.head (congrArg some heq)
    have hgap := gapless_of_isPrintable hprintable (beq_false_of_ne hne) hbreak
    simp only [not_or] at hc
    simp [Traits.isLeadingIndicator] at hleading
    simp [startsPlain, hgap, isIndicator, hleading, hc]

private theorem token?_plain {c : Char} {w tail : List Char} (h : Unquoted (c :: w))
    (htail : ∀ d ∈ tail.head?, d ≠ '-' ∧ d ≠ '.') (fuel : Nat) :
    (idle (c :: (w ++ tail)) m ts allowed i is).token? fuel c (w ++ tail) =
      (idle (c :: (w ++ tail)) m ts allowed i is).scalar? .plain
        (plain? false (i + 1).toNat fuel) := by
  have hmarker : atMarker m (c :: (w ++ tail)) = false := h.atMarker htail m
  have hmark : ∀ d, d = '?' ∨ d = ':' ∨ d = '-' → (c == d && atGap (w ++ tail)) = false := by
    intro d hd
    by_cases hc : c = d
    · rw [atGap_of_unquoted h (hc ▸ hd) tail, Bool.and_false]
    · rw [beq_false_of_ne hc, Bool.false_and]
  have hquestion := hmark '?' (.inl rfl)
  have hcolon := hmark ':' (.inr (.inl rfl))
  have hdash := hmark '-' (.inr (.inr rfl))
  have hleading := (Bool.or_eq_false_iff.mp (h.first c w rfl)).1
  simp [Traits.isLeadingIndicator] at hleading
  simp [token?, inFlow, hmarker, hleading, hdash, hquestion, hcolon, startsPlain_of_unquoted h tail]

/-- A plain scalar up to its end. -/
theorem leads_plain {tail rest : List Char} (h : Unquoted s)
    (htail : ∀ d ∈ tail.head?, d ≠ '-' ∧ d ≠ '.') (hi : i ≤ m.column) {broken : Bool} {m' : Mark}
    (hend : PlainEnd (i + 1).toNat (m.past s) tail broken m' rest) :
    Leads (idle (s ++ tail) m ts allowed i is)
      ⟨rest, m', ts ++ [.scalar .plain s], remembered allowed i m ts, [], broken, i, is⟩ := by
  obtain ⟨c, w, rfl⟩ := List.exists_cons_of_ne_nil h.ne_nil
  obtain ⟨hprintable, hbreak⟩ := h.printable c List.mem_cons_self
  have hfresh : Fresh (c :: (w ++ tail)) :=
    fresh_of_isPrintable hprintable hbreak (fun heq => h.head (congrArg some heq))
      fun heq => h.head?_ne (congrArg some heq)
  have hlength : (c :: (w ++ tail)).length = (c :: w).length + tail.length := by
    rw [← List.cons_append, List.length_append]
  have hrest : rest.length ≤ tail.length := by
    cases hend with
    | colon _ => exact Nat.le_refl _
    | line _ _ =>
      rw [List.length_cons, List.length_append]
      omega
  rw [List.cons_append]
  refine leads_scalar _ ⟨c :: w, broken, m', rest⟩ hfresh hi (token?_plain h htail)
    (fun fuel hfuel => ?_) ?_
  · exact plainFrom?_of_bare h.toBare h.ne_nil h.head (by omega) (h.atMarker htail m) hend []
      (show (c :: w).length ≤ fuel by omega)
  · rw [hlength, List.length_cons]
    exact Nat.lt_of_le_of_lt hrest (by omega)

private theorem length_le_singleBody (indent : Nat) (broken : Bool) (s : List Char) :
    s.length ≤ (singleBody indent broken s).length := by
  induction s generalizing broken with
  | nil => exact Nat.zero_le _
  | cons c s ih =>
    have htrue := ih true
    have hfalse := ih false
    rw [singleBody]
    split
    · simp only [List.length_cons]
      omega
    · have hc : 1 ≤ (if c = '\'' then ['\'', '\''] else [c]).length := by split <;> simp
      simp only [List.length_append, List.length_cons]
      omega

/-- A scalar between single quotes. -/
theorem leads_single {indent : Nat} (hindent : indent ≠ 0)
    (hprintable : Printable s) (hline : '\n' ∉ s) (hsteady : Steady s)
    (hi : i ≤ m.column) {t : List Char} (ht : t.head? ≠ some '\'') :
    ∃ m', m.line ≤ m'.line ∧
      ((∀ c ∈ s, isBreak c = false) → m' = m.past ('\'' :: (singleBody indent false s ++ ['\'']))) ∧
      Leads (idle ('\'' :: (singleBody indent false s ++ '\'' :: t)) m ts allowed i is)
        ⟨t, m', ts ++ [.scalar .single s], remembered allowed i m ts, [], false, i, is⟩ := by
  have hcolumn : (m.next '\'').column ≠ 0 := Nat.succ_ne_zero m.column
  obtain ⟨m', hbelow, hmark, hread⟩ :=
    quotedFrom?_single hindent hprintable hline hsteady ht (m.next '\'') hcolumn
  have hlength := length_le_singleBody indent false s
  refine ⟨m', hbelow, hmark, ?_⟩
  refine leads_scalar (quoted? true) ⟨s, false, m', t⟩ (fresh_cons (by decide)) hi (fun fuel => ?_)
    (fun fuel hfuel => hread fuel ?_) ?_
  · simp [token?, atMarker_of_ne, inFlow]
  · simp only [List.length_cons, List.length_append] at hfuel
    omega
  · simp only [List.length_cons, List.length_append]
    omega

private theorem length_le_flatMap_doubleChar (s : List Char) :
    s.length ≤ (s.flatMap doubleChar).length := by
  induction s with
  | nil => exact Nat.zero_le _
  | cons c s ih =>
    have hc : 1 ≤ (doubleChar c).length := by
      rcases doubleChar_cases c with ⟨heq, -⟩ | ⟨e, heq, -⟩ <;> simp [heq]
    rw [List.flatMap_cons, List.length_append, List.length_cons]
    omega

/-- A scalar between double quotes. -/
theorem leads_double (hi : i ≤ m.column) (t : List Char) :
    Leads (idle ('"' :: (s.flatMap doubleChar ++ '"' :: t)) m ts allowed i is)
      ⟨t, m.past ('"' :: (s.flatMap doubleChar ++ ['"'])), ts ++ [.scalar .double s],
        remembered allowed i m ts, [], false, i, is⟩ := by
  have hlength := length_le_flatMap_doubleChar s
  have hcolumn : (m.next '"').column ≠ 0 := Nat.succ_ne_zero m.column
  refine leads_scalar (quoted? false) ⟨s, false, _, t⟩ (fresh_cons (by decide)) hi (fun fuel => ?_)
    (fun fuel hfuel => quotedFrom?_double s hcolumn t ?_) ?_
  · simp [token?, atMarker_of_ne, inFlow]
  · simp only [List.length_cons, List.length_append] at hfuel
    omega
  · simp only [List.length_cons, List.length_append]
    omega

private theorem length_le_literalBody (indent : Nat) (fresh : Bool) (s : List Char) :
    s.length ≤ (literalBody indent fresh s).length := by
  induction s generalizing fresh with
  | nil => exact Nat.zero_le _
  | cons c s ih =>
    have htrue := ih true
    have hfalse := ih false
    rw [literalBody]
    split
    · simp only [List.length_cons]
      omega
    · simp only [List.length_append, List.length_cons]
      omega

/-- A literal block below a parent that is indented by `level`. -/
theorem leads_literal (hne : s ≠ []) (hprintable : Printable s) {level c : Nat}
    (hm : level ≤ m.column) (hc : c ≤ level) {t : List Char} (ht : Solid t) :
    ∃ m', m'.column = c ∧
      Leads (idle ('|' :: (literalHints s ++ '\n' :: (literalBody (level + 2) true s ++
          (if s.getLast?.any isBreak then [] else ['\n']) ++ (blanks c ++ t)))) m ts allowed level
          is)
        (idle t m' (ts ++ [.scalar .literal s]) true level is) := by
  have hends : EndsBlock (level + 2) c t := ⟨by omega, ht⟩
  obtain ⟨m', hcolumn, hread⟩ := block?_literal hne hprintable hends m
  refine ⟨m', hcolumn, .of_token (settle?_fresh (fresh_cons (by decide)) (by omega)) rfl
    (fun fuel hfuel => ?_) ?_⟩
  · have hlength := length_le_literalBody (level + 2) true s
    simp only [List.length_cons, List.length_append] at hfuel
    have htoken : ∀ u, (idle ('|' :: u) m ts allowed level is).token? fuel '|' u =
        (Scalar.block? level fuel m ('|' :: u)).map fun r =>
          ⟨r.rest, r.mark, ts ++ [.scalar .literal r.text], none, [], true, level, is⟩ := by
      intro u
      simp [token?, atMarker_of_ne, inFlow, block?, dropKey?, emit, moveTo]
      cases Scalar.block? level fuel m ('|' :: u) <;> rfl
    rw [htoken, hread fuel (by omega)]
    rfl
  · simp only [List.length_cons, List.length_append]
    omega

/-! ### Texts -/

/-- The style in which the reader finds a text. -/
def readStyle : Style → ScalarStyle
  | .plain => .plain
  | .single => .single
  | .double => .double
  | .literal => .literal

/-- The token of a text. -/
def textToken (s : List Char) : Token := .scalar (readStyle (styleOf s)) s

private theorem of_mem_remembered (hi : i < m.column) {k : SimpleKey}
    (hk : k ∈ remembered allowed i m ts) : k.required = false ∧ k.mark = m := by
  -- A place deeper than the innermost block need not be that of a key.
  unfold remembered at hk
  split at hk
  · cases hk
    exact ⟨beq_false_of_ne (Int.ne_of_lt hi), rfl⟩
  · exact absurd hk nofun

section

variable {level c : Nat} {t : List Char}

/-- Behind a scalar the end of the line is passed, and the scalar is no key. -/
theorem Leads.line {l : Lexer} {us : List Token} {m' : Mark}
    (h : Leads l
      ⟨'\n' :: (blanks c ++ t), m', us, remembered allowed level m ts, [], false, level, is⟩)
    (hm : level < m.column) (hline : m.line ≤ m'.line) (ht : Fresh t) :
    ∃ m', m'.column = c ∧ Leads l (idle t m' us true level is) := by
  refine ⟨(m'.nextLine '\n').past (blanks c), by simp [Mark.nextLine, blanks],
    h.trans (leads_line ht (fun k hk => ?_) c)⟩
  obtain ⟨hrequired, hmark⟩ := of_mem_remembered (by omega) hk
  exact ⟨hrequired, hmark ▸ hline⟩

/-- A plain scalar and the end of its line. -/
theorem leads_plainLine (h : Unquoted s) (hm : level < m.column) (hc : c ≤ level) (ht : Fresh t) :
    ∃ m', m'.column = c ∧
      Leads (idle (s ++ '\n' :: (blanks c ++ t)) m ts allowed level is)
        (idle t m' (ts ++ [.scalar .plain s]) true level is) := by
  have hend : PlainEnd ((level : Int) + 1).toNat (m.past s) ('\n' :: (blanks c ++ t)) true
      (((m.past s).nextLine '\n').past (blanks c)) t := .line (by omega) ht.solid
  have htail : ∀ d ∈ ('\n' :: (blanks c ++ t)).head?, d ≠ '-' ∧ d ≠ '.' := by
    rintro d hd
    cases hd
    decide
  refine ⟨((m.past s).nextLine '\n').past (blanks c), by simp [Mark.nextLine, blanks],
    (leads_plain h htail (by omega) hend).trans (leads_forget ht fun k hk => ?_)⟩
  obtain ⟨hrequired, hmark⟩ := of_mem_remembered (by omega) hk
  rw [hmark, (Mark.past_eq _ _).1]
  exact ⟨hrequired, Nat.lt_succ_of_le (Nat.le_of_eq (m.past_eq s).1.symm)⟩

private theorem scalarLine_append (indent : Nat) (s t : List Char) :
    scalarLine indent s ++ t =
      match styleOf s with
      | .plain => s ++ '\n' :: t
      | .single => '\'' :: (singleBody indent false s ++ '\'' :: '\n' :: t)
      | .double => '"' :: (s.flatMap doubleChar ++ '"' :: '\n' :: t)
      | .literal => '|' :: (literalHints s ++ '\n' :: (literalBody indent true s ++
          (if s.getLast?.any isBreak then [] else ['\n']) ++ t)) := by
  rw [scalarLine, scalarChars, scalarEnd]
  cases styleOf s <;> simp

/-- A text and the end of its last line. -/
theorem leads_textLine (s : List Char) (hm : level < m.column) (hc : c ≤ level) (ht : Fresh t) :
    ∃ m', m'.column = c ∧
      Leads (idle (scalarLine (level + 2) s ++ (blanks c ++ t)) m ts allowed level is)
        (idle t m' (ts ++ [textToken s]) true level is) := by
  have hsuits := suits_styleOf s
  have hle : (level : Int) ≤ m.column := by omega
  rw [scalarLine_append, textToken]
  cases hstyle : styleOf s <;> rw [hstyle] at hsuits
  case plain => exact leads_plainLine hsuits.1 hm hc ht
  case single =>
    obtain ⟨hprintable, hline, hsteady⟩ := hsuits
    obtain ⟨m', hbelow, -, hleads⟩ := leads_single (Nat.succ_ne_zero (level + 1)) hprintable hline
      hsteady hle (t := '\n' :: (blanks c ++ t)) nofun
    exact hleads.line hm hbelow ht
  case double => exact (leads_double hle _).line hm (Nat.le_of_eq (m.past_eq _).1.symm) ht
  case literal => exact leads_literal hsuits.1 hsuits.2.1 (by omega) hc ht.solid

end

/-! ### Keys -/

private theorem leads_textChars {indent : Nat} (hindent : indent ≠ 0)
    (hbreaks : ∀ c ∈ s, isBreak c = false) (hi : i ≤ m.column) {r : List Char}
    (hr : atGap r = true) :
    Leads (idle (scalarChars indent s ++ ':' :: r) m ts allowed i is)
      ⟨':' :: r, m.past (scalarChars indent s), ts ++ [textToken s], remembered allowed i m ts, [],
        false, i, is⟩ := by
  have hsuits := suits_styleOf s
  have hline : '\n' ∉ s := fun hc => absurd (hbreaks _ hc) (by decide)
  rw [scalarChars, textToken]
  cases hstyle : styleOf s <;> rw [hstyle] at hsuits
  case plain =>
    have htail : ∀ d ∈ (':' :: r).head?, d ≠ '-' ∧ d ≠ '.' := by
      rintro d hd
      cases hd
      decide
    exact leads_plain hsuits.1 htail hi (.colon hr)
  case single =>
    obtain ⟨hprintable, -, hsteady⟩ := hsuits
    obtain ⟨m', -, hmark, hleads⟩ := leads_single hindent hprintable hline hsteady hi
      (t := ':' :: r) nofun
    rw [hmark hbreaks] at hleads
    simpa [readStyle] using hleads
  case double => simpa [readStyle] using leads_double (s := s) hi (':' :: r)
  case literal => exact absurd hstyle (styleOf_ne_literal hline)

private theorem leads_simpleKey {k : String} (hk : isSimpleKey k = true) {indent : Nat}
    (hindent : indent ≠ 0) (hi : i ≤ m.column) {r : List Char} (hr : atGap r = true) :
    ∃ m', m.column < m'.column ∧
      Leads (idle (scalarChars indent k.toList ++ ':' :: r) m ts true i is)
        (idle r m' (ts ++ opened i m.column .blockObjectStart ++ [.key, textToken k.toList, .value])
          false m.column (around i m.column is)) := by
  have hbreaks : ∀ c ∈ k.toList, isBreak c = false := by
    rw [isSimpleKey, Bool.and_eq_true] at hk
    simpa using hk.2
  obtain ⟨hline, hcolumn, hindex⟩ := m.past_eq (scalarChars indent k.toList)
  have hsize := byteSize_scalarChars_le hk indent
  have hbytes : (m.past (scalarChars indent k.toList)).index ≤ m.index + 1024 := by omega
  have hbehind : m.column ≤ (m.past (scalarChars indent k.toList)).column := by omega
  refine ⟨(m.past (scalarChars indent k.toList)).next ':', Nat.lt_succ_of_le hbehind, ?_⟩
  have htokens : ts ++ opened i m.column .blockObjectStart ++ [.key, textToken k.toList, .value] =
      ts ++ opened i m.column .blockObjectStart ++ .key :: [textToken k.toList] ++ [.value] := by
    simp
  rw [htokens]
  exact (leads_textChars hindent hbreaks hi hr).trans
    (leads_colon_of_key (k := ⟨i == m.column, ts.length, m⟩) hr rfl hline.symm hbytes hbehind hi)

/-- A key with its colon. Behind a key that follows a question mark, the value may itself begin
with a key. -/
theorem leads_key (k : String) {level : Nat} (hlevel : m.column = level) (hi : i ≤ level)
    {r : List Char} (hr : atGap r = true) :
    ∃ m', (if isSimpleKey k then level < m'.column else m'.column = level + 1) ∧
      Leads (idle (keyChars level k ++ r) m ts true i is)
        (idle r m' (ts ++ opened i level .blockObjectStart ++ [.key, textToken k.toList, .value])
          (!isSimpleKey k) level (around i level is)) := by
  subst hlevel
  rw [keyChars]
  cases hk : isSimpleKey k with
  | true =>
    rw [if_pos rfl, List.append_assoc]
    exact leads_simpleKey hk (Nat.succ_ne_zero (m.column + 1)) hi hr
  | false =>
    -- The key is a text on lines of its own, between the question mark and the colon.
    have hdeep : m.column < ((m.next '?').next ' ').column := Nat.lt_succ_of_lt (Nat.lt_succ_self _)
    have htext : ∀ ts is, ∃ m', m'.column = m.column ∧
        Leads (idle (scalarLine (m.column + 2) k.toList ++ (blanks m.column ++ ':' :: r))
            ((m.next '?').next ' ') ts true m.column is)
          (idle (':' :: r) m' (ts ++ [textToken k.toList]) true m.column is) := fun ts is =>
      leads_textLine k.toList hdeep (Nat.le_refl m.column) (fresh_cons (by decide))
    obtain ⟨m', hcolumn, htext⟩ := htext (ts ++ opened i m.column .blockObjectStart ++ [.key])
      (around i m.column is)
    have hwritten :
        '?' :: ' ' :: scalarLine (m.column + 2) k.toList ++ blanks m.column ++ [':'] ++ r =
          '?' :: ' ' :: (scalarLine (m.column + 2) k.toList ++ (blanks m.column ++ ':' :: r)) := by
      simp
    have htokens : ts ++ opened i m.column .blockObjectStart ++
        [.key, textToken k.toList, .value] = ts ++ opened i m.column .blockObjectStart ++ [.key] ++
        [textToken k.toList] ++ [.value] := by
      simp
    rw [if_neg Bool.false_ne_true, hwritten, htokens]
    refine ⟨m'.next ':', congrArg Nat.succ hcolumn, (leads_question rfl hi).trans ?_⟩
    exact leads_blank.trans (htext.trans (leads_colon hr (congrArg Int.ofNat hcolumn.symm)))

end

end Lexer

end Mishap.Yaml
