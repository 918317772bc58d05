import Mishap.Json.Printer
import Mishap.Json.Reader
import Mishap.Proofs.Text.Digits

/-!
# Tokens of JSON text

What the printer writes for one token, the reader takes back whole, whatever follows: strings
(`string_chars`), integers of the 64-bit range (`number_integer`), and the marks between the parts
of lists and objects. White space before a token is passed over, and nothing else is.
-/

namespace Mishap.Json.Reader

/-! ### White space -/

/-- Text of white space alone. -/
def Blank (w : List Char) : Prop := ∀ c ∈ w, isSpace c = true

/-- The empty text is blank. -/
theorem Blank.nil : Blank [] := nofun

/-- Two blank texts, one behind the other, are one. -/
theorem Blank.append {v w : List Char} (hv : Blank v) (hw : Blank w) : Blank (v ++ w) :=
  fun c hc => (List.mem_append.mp hc).elim (hv c) (hw c)

/-- A line end and its indentation are blank. -/
theorem blank_newline (level : Nat) : Blank (newline level) := by
  intro c hc
  rcases List.mem_cons.mp hc with rfl | hc
  · rfl
  · rw [(List.mem_replicate.mp hc).2]
    rfl

/-- A single blank is a blank text. -/
theorem blank_space : Blank [' '] := by
  intro c hc
  rw [List.mem_singleton.mp hc]
  rfl

/-- A blank text is skipped. -/
theorem skipSpace_append {w : List Char} (hw : Blank w) (s : List Char) :
    skipSpace (w ++ s) = skipSpace s :=
  List.dropWhile_append_of_pos hw

/-- No character is skipped but a blank one. -/
theorem skipSpace_cons {c : Char} (hc : isSpace c = false) (s : List Char) :
    skipSpace (c :: s) = c :: s := by
  rw [skipSpace, List.dropWhile_cons, if_neg (by rw [hc]; exact Bool.false_ne_true)]

/-- From white space on the next token is found. -/
theorem skipSpace_append_cons {w : List Char} (hw : Blank w) {c : Char} (hc : isSpace c = false)
    (s : List Char) : skipSpace (w ++ c :: s) = c :: s :=
  (skipSpace_append hw _).trans (skipSpace_cons hc s)

/-! ### Numbers -/

/-- A number ends here: what follows can be no part of it. -/
def Stops (s : List Char) : Prop :=
  ∀ c ∈ s.head?, Text.isDigit c = false ∧ c ≠ '.' ∧ c ≠ 'e' ∧ c ≠ 'E'

/-- A number can stop at the end of the text. -/
theorem Stops.nil : Stops [] := nofun

/-- A number can stop before a blank, a comma or a closing bracket. -/
theorem Stops.cons {c : Char} (hc : c ∈ [' ', '\n', '\t', '\r', ',', ']', '\x7d']) (s : List Char) :
    Stops (c :: s) := by
  intro d hd
  cases hd
  simp only [List.mem_cons, List.not_mem_nil, or_false] at hc
  rcases hc with rfl | rfl | rfl | rfl | rfl | rfl | rfl <;> decide

/-- White space ends a number. -/
theorem Stops.blank_append {w s : List Char} (hw : Blank w) (hs : Stops s) : Stops (w ++ s) := by
  cases w with
  | nil => exact hs
  | cons c w =>
    have hc := hw c List.mem_cons_self
    simp only [isSpace, Bool.or_eq_true, beq_iff_eq] at hc
    have hmem : c ∈ [' ', '\n', '\t', '\r', ',', ']', '\x7d'] := by
      rcases hc with ((rfl | rfl) | rfl) | rfl <;> decide
    exact .cons hmem (w ++ s)

private theorem accumulate_eq {limit n : Nat} {s : List Char}
    (h : s.foldl (fun n c => 10 * n + Text.digitValue c) n < limit) :
    accumulate limit n s = (s.foldl (fun n c => 10 * n + Text.digitValue c) n, []) := by
  induction s generalizing n with
  | nil => rfl
  | cons c s ih =>
    rw [List.foldl_cons] at h ⊢
    have hnext : 10 * n + Text.digitValue c < limit :=
      Nat.lt_of_le_of_lt (Text.le_foldl_digits s _) h
    rw [accumulate, if_pos hnext]
    exact ih h

/-- A natural number of 64 bits is read back, with its sign. -/
theorem unsigned_decimal {n : Nat} (hn : n < 0x10000000000000000) {s : List Char} (hs : Stops s)
    (negative : Bool) :
    unsigned negative (Text.decimal n ++ s) = .ok (wholeNumber negative n, s) := by
  have hafter : afterWhole negative n s = .ok (wholeNumber negative n, s) := by
    unfold afterWhole
    split
    · next t => exact absurd rfl (hs '.' rfl).2.1
    · next t => exact absurd rfl (hs 'e' rfl).2.2.1
    · next t => exact absurd rfl (hs 'E' rfl).2.2.2
    · rfl
  have hrun : (Text.decimal n ++ s).takeWhile Text.isDigit = Text.decimal n ∧
      (Text.decimal n ++ s).dropWhile Text.isDigit = s := by
    rw [List.takeWhile_append_of_pos fun c hc => Text.isDigit_of_mem_decimal hc,
      List.dropWhile_append_of_pos fun c hc => Text.isDigit_of_mem_decimal hc]
    cases s with
    | nil => exact ⟨List.append_nil _, rfl⟩
    | cons c s =>
      have hc := (hs c rfl).1
      simp [hc]
  have hvalue : accumulate 0x10000000000000000 0 (Text.decimal n) = (n, []) := by
    have hfold := Text.decimalValue_decimal n
    rw [Text.decimalValue] at hfold
    rw [accumulate_eq (by rw [hfold]; exact hn), hfold]
  by_cases hzero : n = 0
  · subst hzero
    have hdigits : Text.decimal 0 = ['0'] := rfl
    rw [hdigits, List.singleton_append, unsigned.eq_def]
    cases s with
    | nil => exact hafter
    | cons c s =>
      simp only [if_true, (hs c rfl).1]
      exact hafter
  · have hhead := Text.head?_decimal_ne_zero hzero
    have hall := fun c => @Text.isDigit_of_mem_decimal n c
    cases hd : Text.decimal n with
    | nil => exact absurd hd (Text.decimal_ne_nil n)
    | cons c t =>
      rw [hd] at hrun hvalue hhead hall
      have hne : c ≠ '0' := fun heq => hhead (congrArg some heq)
      rw [List.cons_append] at hrun ⊢
      rw [unsigned.eq_def]
      simp only [if_neg hne, if_pos (hall c List.mem_cons_self), hrun, hvalue]
      exact hafter

/-- The decimal text of an integer is read back as that integer, up to where a number can stop. -/
theorem number_integer {i : Int} (hi : Number.InRange i) {s : List Char} (hs : Stops s) :
    number (Text.integer i ++ s) = .ok (.int i, s) := by
  obtain ⟨hlow, hhigh⟩ := hi
  rw [Text.integer]
  split
  · next hneg =>
    have hn : i.natAbs < 0x10000000000000000 := by omega
    rw [List.cons_append, number, unsigned_decimal hn hs, wholeNumber, if_pos rfl,
      if_neg (by omega)]
    have hback : -(i.natAbs : Int) = i := by omega
    rw [hback]
  · next hpos =>
    have hn : i.natAbs < 0x10000000000000000 := by omega
    have hback : (i.natAbs : Int) = i := by omega
    have hread := unsigned_decimal hn hs false
    rw [wholeNumber, if_neg Bool.false_ne_true, hback] at hread
    have hall := fun c => @Text.isDigit_of_mem_decimal i.natAbs c
    cases hd : Text.decimal i.natAbs with
    | nil => exact absurd hd (Text.decimal_ne_nil _)
    | cons c t =>
      rw [hd] at hread hall
      have hne : c ≠ '-' := by
        rintro rfl
        exact absurd (hall '-' List.mem_cons_self) (by decide)
      rw [List.cons_append] at hread ⊢
      rw [number]
      · exact hread
      · intro u heq
        exact hne (List.cons.inj heq).1

/-! ### Strings -/

private theorem fourHex_hex {n : Nat} (hn : n < 0x20) (s : List Char) :
    (Text.padLeft '0' 4 (Text.hex n)).length = 4 ∧
      fourHex (Text.padLeft '0' 4 (Text.hex n) ++ s) = .ok n := by
  have hwritten : ∀ m < 0x20, Text.padLeft '0' 4 (Text.hex m) =
      ['0', '0', (m / 16).digitChar, (m % 16).digitChar] := by
    decide
  have hdigit : ∀ d < 16, d.digitChar.utf8Size = 1 ∧ Text.hexValue? d.digitChar = some d := by
    decide
  obtain ⟨hsize, hvalue⟩ := hdigit (n / 16) (by omega)
  obtain ⟨hsize', hvalue'⟩ := hdigit (n % 16) (by omega)
  have hzero : '0'.utf8Size = 1 ∧ Text.hexValue? '0' = some 0 := by decide
  rw [hwritten n hn]
  refine ⟨rfl, ?_⟩
  simp only [fourHex, Text.byteSize, List.cons_append, List.nil_append, List.take_succ_cons,
    List.take_zero, List.foldl_cons, List.foldl_nil, List.map_cons, List.map_nil, hsize, hsize',
    hvalue, hvalue', hzero]
  rw [if_neg (by decide)]
  congr 1
  omega

private theorem stringTail_escape {e s : List Char} {c : Char}
    (h : escape (e ++ s) = .ok (c, e.length)) :
    stringTail ('\\' :: e ++ s) = (stringTail s).map fun r => (c :: r.1, r.2) := by
  rw [List.cons_append, stringTail, if_neg (by decide), if_pos rfl]
  simp only [h, List.drop_left]

/-- A character inside a string is read back, however it is written there. -/
theorem stringTail_escapeChar (c : Char) (s : List Char) :
    stringTail (escapeChar c ++ s) = (stringTail s).map fun r => (c :: r.1, r.2) := by
  unfold escapeChar
  split
  · exact stringTail_escape (e := ['"']) rfl
  · exact stringTail_escape (e := ['\\']) rfl
  · exact stringTail_escape (e := ['n']) rfl
  · exact stringTail_escape (e := ['r']) rfl
  · exact stringTail_escape (e := ['t']) rfl
  · exact stringTail_escape (e := ['b']) rfl
  · exact stringTail_escape (e := ['f']) rfl
  · next hquote hbackslash _ _ _ _ _ =>
    split
    · next hlow =>
      obtain ⟨hlength, hdigits⟩ := fourHex_hex hlow s
      have hread : escape ('u' :: Text.padLeft '0' 4 (Text.hex c.toNat) ++ s) = .ok (c, 5) := by
        have hlone : ¬ (0xDC00 ≤ c.toNat ∧ c.toNat ≤ 0xDFFF) := by omega
        have hpair : ¬ (0xD800 ≤ c.toNat ∧ c.toNat ≤ 0xDBFF) := by omega
        rw [List.cons_append, escape, hdigits]
        simp [bind, Except.bind, hlone, hpair]
      refine stringTail_escape (e := 'u' :: Text.padLeft '0' 4 (Text.hex c.toNat)) ?_
      rw [hread, List.length_cons, hlength]
    · next hhigh =>
      rw [List.singleton_append, stringTail, if_neg hquote, if_neg hbackslash, if_neg hhigh]

/-- An escaped string is read back, up to its closing quotation mark. -/
theorem stringTail_chars (cs s : List Char) :
    stringTail (cs.flatMap escapeChar ++ '"' :: s) = .ok (cs, s) := by
  induction cs with
  | nil =>
    rw [List.flatMap_nil, List.nil_append, stringTail, if_pos rfl]
  | cons c cs ih =>
    rw [List.flatMap_cons, List.append_assoc, stringTail_escapeChar, ih]
    rfl

/-- A string is read back from behind its opening quote. -/
theorem string_chars (x : String) (s : List Char) :
    ∃ t, stringChars x ++ s = '"' :: t ∧ string t = .ok (x, s) := by
  refine ⟨x.toList.flatMap escapeChar ++ '"' :: s, by simp [stringChars], ?_⟩
  rw [string, stringTail_chars]
  simp [Except.map]

/-! ### Marks -/

/-- What stands before a part of a list or an object, apart from white space. -/
def comma (first : Bool) : List Char := if first then [] else [',']

variable {w w' : List Char}

/-- The first part is found behind the white space before it. -/
theorem skipSpace_first (hw : Blank w) (hw' : Blank w') {c : Char} (hc : isSpace c = false)
    (s : List Char) : skipSpace (w ++ comma true ++ w' ++ c :: s) = c :: s := by
  rw [comma, if_pos rfl, List.append_nil, List.append_assoc, skipSpace_append hw]
  exact skipSpace_append_cons hw' hc s

/-- Before a later part its comma is found. -/
theorem skipSpace_comma (hw : Blank w) (s : List Char) :
    skipSpace (w ++ comma false ++ w' ++ s) = ',' :: (w' ++ s) := by
  rw [comma, if_neg Bool.false_ne_true, List.append_assoc, List.append_assoc]
  exact skipSpace_append_cons hw rfl _

/-- A list is closed behind blanks. -/
theorem closeList_append (hw : Blank w) (s : List Char) : closeList (w ++ ']' :: s) = .ok s := by
  rw [closeList, skipSpace_append_cons hw rfl]
  rfl

/-- An object is closed behind blanks. -/
theorem closeObject_append (hw : Blank w) (s : List Char) :
    closeObject (w ++ '\x7d' :: s) = .ok s := by
  rw [closeObject, skipSpace_append_cons hw rfl]
  rfl

/-- A colon is read behind blanks. -/
theorem colon_append (hw : Blank w) (s : List Char) : colon (w ++ ':' :: s) = .ok s := by
  rw [colon, skipSpace_append_cons hw rfl]
  rfl

/-- Before a closing bracket no next item is announced. -/
theorem nextItem_end (hw : Blank w) (first : Bool) (s : List Char) :
    nextItem first (w ++ ']' :: s) = .ok none := by
  rw [nextItem, skipSpace_append_cons hw rfl]
  rfl

/-- Before a closing brace no next member is announced. -/
theorem nextMember_end (hw : Blank w) (first : Bool) (s : List Char) :
    nextMember first (w ++ '\x7d' :: s) = .ok none := by
  rw [nextMember, skipSpace_append_cons hw rfl]
  rfl

/-- The next item begins with a character that is no mark of the list. -/
theorem nextItem_append (hw : Blank w) (hw' : Blank w') (first : Bool) {c : Char}
    (hspace : isSpace c = false) (hclose : c ≠ ']') (s : List Char) :
    nextItem first (w ++ comma first ++ w' ++ c :: s) = .ok (some (c :: s)) := by
  cases first with
  | true =>
    rw [nextItem, skipSpace_first hw hw' hspace]
    split
    · next heq => exact absurd heq nofun
    · next heq => exact absurd (List.cons.inj heq).1 hclose
    · next heq =>
      cases heq
      rfl
  | false =>
    rw [nextItem, skipSpace_comma hw]
    change (if false = true then _ else if ',' = ',' then _ else _) = _
    rw [if_neg Bool.false_ne_true, if_pos rfl, skipSpace_append_cons hw' hspace]
    split
    · next heq => exact absurd heq nofun
    · next heq => exact absurd (List.cons.inj heq).1 hclose
    · rfl

/-- The next member begins with a quote. -/
theorem nextMember_append (hw : Blank w) (hw' : Blank w') (first : Bool) (s : List Char) :
    nextMember first (w ++ comma first ++ w' ++ '"' :: s) = .ok (some s) := by
  cases first with
  | true =>
    rw [nextMember, skipSpace_first hw hw' rfl]
    rfl
  | false =>
    rw [nextMember, skipSpace_comma hw]
    change (if false = true then _ else if ',' = ',' then _ else _) = _
    rw [if_neg Bool.false_ne_true, if_pos rfl, skipSpace_append_cons hw' rfl]
    rfl

end Mishap.Json.Reader
