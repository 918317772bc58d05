import Mishap.Proofs.Json.Token
import Mishap.Schema.FromValue

/-!
# Spellings of JSON values

A value is spelled by its tokens in order, with any white space between them. Both texts that are
written for a value are spellings (`spells_of_written`). However a value is spelled, as many
brackets are open at once in the text as lists and objects lie inside one another in the value
(`deepest_of_spells`).
-/

namespace Mishap.Json

open Reader (Blank comma)
open Schema (nesting nestingItems nestingMembers)

/-- All numbers in the value are integers of the 64-bit ranges. -/
inductive Integral : Json → Prop
  | null : Integral .null
  | bool (b : Bool) : Integral (.bool b)
  | int {i : Int} (range : Number.InRange i) : Integral (.number (.int i))
  | string (s : String) : Integral (.string s)
  | array {xs : List Json} (items : ∀ x ∈ xs, Integral x) : Integral (.array xs)
  | object {ms : List (String × Json)} (members : ∀ m ∈ ms, Integral m.2) : Integral (.object ms)

mutual

/-- A text spells a value, the numbers in it being integers of the 64-bit ranges. -/
def Spells : Json → List Char → Prop
  | .null, t => t = "null".toList
  | .bool b, t => t = (if b then "true" else "false").toList
  | .number (.int i), t => Number.InRange i ∧ t = Text.integer i
  | .number (.double _), _ => False
  | .string s, t => t = stringChars s
  | .array xs, t => ∃ u, SpellsItems true xs u ∧ t = '[' :: u ++ [']']
  | .object ms, t => ∃ u, SpellsMembers true ms u ∧ t = '\x7b' :: u ++ ['\x7d']

/-- A text spells the items of a list, with all white space around them. -/
def SpellsItems : Bool → List Json → List Char → Prop
  | _, [], u => Blank u
  | first, x :: xs, u => ∃ w w' t rest, Blank w ∧ Blank w' ∧ Spells x t ∧
      SpellsItems false xs rest ∧ u = w ++ comma first ++ w' ++ t ++ rest

/-- A text spells the members of an object, with all white space around them. -/
def SpellsMembers : Bool → List (String × Json) → List Char → Prop
  | _, [], u => Blank u
  | first, (k, x) :: ms, u => ∃ w w' v v' t rest, Blank w ∧ Blank w' ∧ Blank v ∧ Blank v' ∧
      Spells x t ∧ SpellsMembers false ms rest ∧
      u = w ++ comma first ++ w' ++ stringChars k ++ v ++ ':' :: v' ++ t ++ rest

end

/-! ### Written texts -/

mutual

/-- The indented text of a value spells it. -/
theorem spells_prettyChars (level : Nat) : (v : Json) → v.Integral → v.Spells (v.prettyChars level)
  | .null, _ => by rw [prettyChars, Spells]
  | .bool true, _ => by rw [prettyChars, Spells, if_pos rfl]
  | .bool false, _ => by rw [prettyChars, Spells, if_neg Bool.false_ne_true]
  | .number (.int i), h => by
    cases h with
    | int range =>
      rw [prettyChars, Spells, numberChars]
      exact ⟨range, rfl⟩
  | .string s, _ => by rw [prettyChars, Spells]
  | .array [], _ => by
    rw [prettyChars, Spells]
    exact ⟨[], by rw [SpellsItems]; exact .nil, rfl⟩
  | .array (x :: xs), h => by
    cases h with
    | array items =>
      have hx := spells_prettyChars (level + 1) x (items x List.mem_cons_self)
      have hxs := spells_prettyItems (level + 1) (newline level) (Reader.blank_newline level) xs
        fun y hy => items y (List.mem_cons_of_mem x hy)
      rw [prettyChars, Spells]
      refine ⟨newline (level + 1) ++ prettyChars (level + 1) x ++
        (prettyItems (level + 1) xs ++ newline level), ?_, by simp⟩
      rw [SpellsItems]
      exact ⟨[], newline (level + 1), _, _, .nil, Reader.blank_newline _, hx, hxs, rfl⟩
  | .object [], _ => by
    rw [prettyChars, Spells]
    exact ⟨[], by rw [SpellsMembers]; exact .nil, rfl⟩
  | .object ((k, x) :: ms), h => by
    cases h with
    | object members =>
      have hx := spells_prettyChars (level + 1) x (members (k, x) List.mem_cons_self)
      have hms := spells_prettyMembers (level + 1) (newline level) (Reader.blank_newline level) ms
        fun m hm => members m (List.mem_cons_of_mem (k, x) hm)
      rw [prettyChars, Spells]
      refine ⟨newline (level + 1) ++ stringChars k ++ ':' :: [' '] ++ prettyChars (level + 1) x ++
        (prettyMembers (level + 1) ms ++ newline level), ?_, by simp⟩
      rw [SpellsMembers]
      exact ⟨[], newline (level + 1), [], [' '], _, _, .nil, Reader.blank_newline _, .nil,
        Reader.blank_space, hx, hms, by simp [comma]⟩

/-- The indented texts of items, with a blank text behind them, spell the items. -/
theorem spells_prettyItems (level : Nat) (w : List Char) (hw : Blank w) : (xs : List Json) →
    (∀ x ∈ xs, x.Integral) → SpellsItems false xs (prettyItems level xs ++ w)
  | [], _ => by rw [prettyItems, SpellsItems]; exact hw
  | x :: xs, h => by
    have hx := spells_prettyChars level x (h x List.mem_cons_self)
    have hxs := spells_prettyItems level w hw xs fun y hy => h y (List.mem_cons_of_mem x hy)
    rw [prettyItems, SpellsItems]
    exact ⟨[], newline level, _, _, .nil, Reader.blank_newline _, hx, hxs, by simp [comma]⟩

/-- The indented texts of members, with a blank text behind them, spell the members. -/
theorem spells_prettyMembers (level : Nat) (w : List Char) (hw : Blank w) :
    (ms : List (String × Json)) → (∀ m ∈ ms, m.2.Integral) →
      SpellsMembers false ms (prettyMembers level ms ++ w)
  | [], _ => by rw [prettyMembers, SpellsMembers]; exact hw
  | (k, x) :: ms, h => by
    have hx := spells_prettyChars level x (h (k, x) List.mem_cons_self)
    have hms := spells_prettyMembers level w hw ms fun m hm => h m (List.mem_cons_of_mem (k, x) hm)
    rw [prettyMembers, SpellsMembers]
    exact ⟨[], newline level, [], [' '], _, _, .nil, Reader.blank_newline _, .nil,
      Reader.blank_space, hx, hms, by simp [comma]⟩

end

mutual

private theorem spells_compactChars : (v : Json) → v.Integral → v.Spells v.compactChars
  | .null, _ => by rw [compactChars, Spells]
  | .bool true, _ => by rw [compactChars, Spells, if_pos rfl]
  | .bool false, _ => by rw [compactChars, Spells, if_neg Bool.false_ne_true]
  | .number (.int i), h => by
    cases h with
    | int range =>
      rw [compactChars, Spells, numberChars]
      exact ⟨range, rfl⟩
  | .string s, _ => by rw [compactChars, Spells]
  | .array xs, h => by
    cases h with
    | array items =>
      have hxs := spells_compactItems true xs items
      rw [compactChars, Spells]
      exact ⟨compactItems xs, by simpa [comma] using hxs, rfl⟩
  | .object ms, h => by
    cases h with
    | object members =>
      have hms := spells_compactMembers true ms members
      rw [compactChars, Spells]
      exact ⟨compactMembers ms, by simpa [comma] using hms, rfl⟩

private theorem spells_compactItems (first : Bool) : (xs : List Json) → (∀ x ∈ xs, x.Integral) →
    SpellsItems first xs ((if xs.isEmpty then [] else comma first) ++ compactItems xs)
  | [], _ => by
    rw [compactItems, SpellsItems]
    exact .nil
  | [x], h => by
    have hx := spells_compactChars x (h x List.mem_cons_self)
    rw [compactItems, SpellsItems]
    exact ⟨[], [], _, [], .nil, .nil, hx, by rw [SpellsItems]; exact .nil, by simp⟩
  | x :: y :: xs, h => by
    have hx := spells_compactChars x (h x List.mem_cons_self)
    have hxs := spells_compactItems false (y :: xs) fun z hz => h z (List.mem_cons_of_mem x hz)
    rw [compactItems, SpellsItems]
    exact ⟨[], [], _, _, .nil, .nil, hx, hxs, by simp [comma]⟩

private theorem spells_compactMembers (first : Bool) : (ms : List (String × Json)) →
    (∀ m ∈ ms, m.2.Integral) →
      SpellsMembers first ms ((if ms.isEmpty then [] else comma first) ++ compactMembers ms)
  | [], _ => by
    rw [compactMembers, SpellsMembers]
    exact .nil
  | [(k, x)], h => by
    have hx := spells_compactChars x (h (k, x) List.mem_cons_self)
    rw [compactMembers, SpellsMembers]
    exact ⟨[], [], [], [], _, [], .nil, .nil, .nil, .nil, hx,
      by rw [SpellsMembers]; exact .nil, by simp⟩
  | (k, x) :: m :: ms, h => by
    have hx := spells_compactChars x (h (k, x) List.mem_cons_self)
    have hms := spells_compactMembers false (m :: ms) fun n hn =>
      h n (List.mem_cons_of_mem (k, x) hn)
    rw [compactMembers, SpellsMembers]
    exact ⟨[], [], [], [], _, _, .nil, .nil, .nil, .nil, hx, hms, by simp [comma]⟩

end

/-- Both texts that are written for a value spell it. -/
theorem spells_of_written {v : Json} (hv : v.Integral) {text : String}
    (h : text = v.compact ∨ text = v.pretty) : v.Spells text.toList := by
  rcases h with rfl | rfl
  · rw [compact, String.toList_ofList]
    exact spells_compactChars v hv
  · rw [pretty, String.toList_ofList]
    exact spells_prettyChars 0 v hv

/-! ### Open brackets -/

/-- Where a scan of a text stands. -/
inductive Place where
  | outside
  /-- Inside a string. -/
  | inside
  /-- Behind the backslash of an escape. -/
  | escaped

/-- The largest number of brackets and braces that are open at once in a text, a number of them
being open before it. What stands inside strings does not count. -/
def deepestFrom : Place → Nat → List Char → Nat
  | _, n, [] => n
  | .outside, n, c :: s =>
    if c = '"' then deepestFrom .inside n s
    else if c = '[' ∨ c = '\x7b' then deepestFrom .outside (n + 1) s
    else if c = ']' ∨ c = '\x7d' then max n (deepestFrom .outside (n - 1) s)
    else deepestFrom .outside n s
  | .inside, n, c :: s =>
    if c = '\\' then deepestFrom .escaped n s
    else if c = '"' then deepestFrom .outside n s
    else deepestFrom .inside n s
  | .escaped, n, _ :: s => deepestFrom .inside n s

/-- The largest number of brackets and braces that are open at once in a text. -/
def deepest (text : String) : Nat := deepestFrom .outside 0 text.toList

private theorem le_deepestFrom (p : Place) (n : Nat) (s : List Char) : n ≤ deepestFrom p n s := by
  induction s generalizing p n with
  | nil => cases p <;> exact Nat.le_refl n
  | cons c s ih =>
    cases p with
    | outside =>
      rw [deepestFrom]
      split
      · exact ih .inside n
      · split
        · exact Nat.le_of_succ_le (ih .outside (n + 1))
        · split
          · exact Nat.le_max_left n _
          · exact ih .outside n
    | inside =>
      rw [deepestFrom]
      split
      · exact ih .escaped n
      · split
        · exact ih .outside n
        · exact ih .inside n
    | escaped => exact ih .inside n

/-- Text without quotes and brackets leaves open what is open. -/
theorem deepestFrom_plain {t : List Char} (h : ∀ c ∈ t, c ∉ ['"', '[', '\x7b', ']', '\x7d'])
    (n : Nat) (s : List Char) : deepestFrom .outside n (t ++ s) = deepestFrom .outside n s := by
  induction t with
  | nil => rfl
  | cons c t ih =>
    have hc := h c List.mem_cons_self
    simp only [List.mem_cons, List.not_mem_nil, or_false, not_or] at hc
    rw [List.cons_append, deepestFrom, if_neg hc.1, if_neg (by simp [hc]), if_neg (by simp [hc])]
    exact ih fun d hd => h d (List.mem_cons_of_mem c hd)

private theorem deepestFrom_blank {w : List Char} (hw : Blank w) (n : Nat) (s : List Char) :
    deepestFrom .outside n (w ++ s) = deepestFrom .outside n s := by
  refine deepestFrom_plain (fun c hc => ?_) n s
  have hspace := hw c hc
  simp only [Reader.isSpace, Bool.or_eq_true, beq_iff_eq] at hspace
  rcases hspace with ((rfl | rfl) | rfl) | rfl <;> decide

private theorem deepestFrom_comma (first : Bool) (n : Nat) (s : List Char) :
    deepestFrom .outside n (comma first ++ s) = deepestFrom .outside n s := by
  cases first <;> rfl

private theorem deepestFrom_inside {t : List Char} (h : ∀ c ∈ t, c ≠ '\\' ∧ c ≠ '"') (n : Nat)
    (s : List Char) : deepestFrom .inside n (t ++ s) = deepestFrom .inside n s := by
  induction t with
  | nil => rfl
  | cons c t ih =>
    obtain ⟨hbackslash, hquote⟩ := h c List.mem_cons_self
    rw [List.cons_append, deepestFrom, if_neg hbackslash, if_neg hquote]
    exact ih fun d hd => h d (List.mem_cons_of_mem c hd)

private theorem deepestFrom_escapeChar (c : Char) (n : Nat) (s : List Char) :
    deepestFrom .inside n (escapeChar c ++ s) = deepestFrom .inside n s := by
  have hescape : ∀ d t, deepestFrom .inside n ('\\' :: d :: t) = deepestFrom .inside n t :=
    fun d t => rfl
  unfold escapeChar
  split
  · exact hescape _ s
  · exact hescape _ s
  · exact hescape _ s
  · exact hescape _ s
  · exact hescape _ s
  · exact hescape _ s
  · exact hescape _ s
  · next hquote hbackslash _ _ _ _ _ =>
    split
    · next hlow =>
      have hdigits : ∀ m < 0x20,
          (Text.padLeft '0' 4 (Text.hex m)).all (fun d => d ≠ '\\' ∧ d ≠ '"') = true := by
        decide
      refine (hescape 'u' _).trans (deepestFrom_inside (fun d hd => ?_) n s)
      exact of_decide_eq_true (List.all_eq_true.mp (hdigits c.toNat hlow) d hd)
    · refine deepestFrom_inside (fun d hd => ?_) n s
      rw [List.mem_singleton.mp hd]
      exact ⟨hbackslash, hquote⟩

/-- A string leaves open what is open. -/
theorem deepestFrom_stringChars (x : String) (n : Nat) (s : List Char) :
    deepestFrom .outside n (stringChars x ++ s) = deepestFrom .outside n s := by
  have hinside : ∀ cs : List Char,
      deepestFrom .inside n (cs.flatMap escapeChar ++ '"' :: s) = deepestFrom .outside n s := by
    intro cs
    induction cs with
    | nil => rfl
    | cons c cs ih =>
      rw [List.flatMap_cons, List.append_assoc, deepestFrom_escapeChar, ih]
  have hchars : stringChars x ++ s = '"' :: (x.toList.flatMap escapeChar ++ '"' :: s) := by
    simp [stringChars]
  rw [hchars, deepestFrom, if_pos rfl, hinside]

private theorem deepestFrom_integer (i : Int) (n : Nat) (s : List Char) :
    deepestFrom .outside n (Text.integer i ++ s) = deepestFrom .outside n s := by
  have hplain : ∀ c : Char, Text.isDigit c = true → c ∉ ['"', '[', '\x7b', ']', '\x7d'] := by
    intro c hc hmem
    simp only [List.mem_cons, List.not_mem_nil, or_false] at hmem
    rcases hmem with rfl | rfl | rfl | rfl | rfl <;> exact absurd hc (by decide)
  refine deepestFrom_plain (fun c hc => ?_) n s
  rw [Text.integer] at hc
  split at hc
  · rcases List.mem_cons.mp hc with rfl | hc
    · decide
    · exact hplain c (Text.isDigit_of_mem_decimal hc)
  · exact hplain c (Text.isDigit_of_mem_decimal hc)

private theorem deepestFrom_bracket {n m : Nat} {u s : List Char} {close : Char}
    (hclose : close = ']' ∨ close = '\x7d')
    (h : deepestFrom .outside (n + 1) (u ++ close :: s) =
      max (n + 1 + m) (deepestFrom .outside (n + 1) (close :: s))) :
    deepestFrom .outside (n + 1) (u ++ close :: s) =
      max (n + (m + 1)) (deepestFrom .outside n s) := by
  have hend : deepestFrom .outside (n + 1) (close :: s) =
      max (n + 1) (deepestFrom .outside n s) := by
    rcases hclose with rfl | rfl <;> rfl
  rw [h, hend]
  omega

mutual

private theorem deepestFrom_spells : (v : Json) → (t : List Char) → v.Spells t → (n : Nat) →
    (s : List Char) →
      deepestFrom .outside n (t ++ s) = max (n + nesting v) (deepestFrom .outside n s)
  | .null, t, h, n, s => by
    rw [Spells] at h
    subst h
    exact (Nat.max_eq_right (le_deepestFrom .outside n s)).symm
  | .bool b, t, h, n, s => by
    rw [Spells] at h
    subst h
    cases b <;> exact (Nat.max_eq_right (le_deepestFrom .outside n s)).symm
  | .number (.int i), t, h, n, s => by
    rw [Spells] at h
    rw [h.2, deepestFrom_integer]
    exact (Nat.max_eq_right (le_deepestFrom .outside n s)).symm
  | .number (.double x), t, h, n, s => by
    rw [Spells] at h
    exact h.elim
  | .string x, t, h, n, s => by
    rw [Spells] at h
    rw [h, deepestFrom_stringChars]
    exact (Nat.max_eq_right (le_deepestFrom .outside n s)).symm
  | .array xs, t, h, n, s => by
    rw [Spells] at h
    obtain ⟨u, hu, rfl⟩ := h
    have hitems := deepestFrom_spellsItems true xs u hu (n + 1) (']' :: s)
    have hopen : deepestFrom .outside n ('[' :: u ++ [']'] ++ s) =
        deepestFrom .outside (n + 1) (u ++ ']' :: s) := by
      rw [List.append_assoc]
      rfl
    rw [hopen, deepestFrom_bracket (.inl rfl) hitems, nesting]
  | .object ms, t, h, n, s => by
    rw [Spells] at h
    obtain ⟨u, hu, rfl⟩ := h
    have hmembers := deepestFrom_spellsMembers true ms u hu (n + 1) ('\x7d' :: s)
    have hopen : deepestFrom .outside n ('\x7b' :: u ++ ['\x7d'] ++ s) =
        deepestFrom .outside (n + 1) (u ++ '\x7d' :: s) := by
      rw [List.append_assoc]
      rfl
    rw [hopen, deepestFrom_bracket (.inr rfl) hmembers, nesting]

private theorem deepestFrom_spellsItems : (first : Bool) → (xs : List Json) → (u : List Char) →
    SpellsItems first xs u → (n : Nat) → (s : List Char) →
      deepestFrom .outside n (u ++ s) = max (n + nestingItems xs) (deepestFrom .outside n s)
  | first, [], u, h, n, s => by
    rw [SpellsItems] at h
    rw [deepestFrom_blank h, nestingItems]
    exact (Nat.max_eq_right (le_deepestFrom .outside n s)).symm
  | first, x :: xs, u, h, n, s => by
    rw [SpellsItems] at h
    obtain ⟨w, w', t, rest, hw, hw', hx, hxs, rfl⟩ := h
    have hitem := deepestFrom_spells x t hx n (rest ++ s)
    have hitems := deepestFrom_spellsItems false xs rest hxs n s
    have hstart : deepestFrom .outside n (w ++ comma first ++ w' ++ t ++ rest ++ s) =
        deepestFrom .outside n (t ++ (rest ++ s)) := by
      simp only [List.append_assoc]
      rw [deepestFrom_blank hw, deepestFrom_comma, deepestFrom_blank hw']
    rw [hstart, hitem, hitems, nestingItems]
    omega

private theorem deepestFrom_spellsMembers : (first : Bool) → (ms : List (String × Json)) →
    (u : List Char) → SpellsMembers first ms u → (n : Nat) → (s : List Char) →
      deepestFrom .outside n (u ++ s) = max (n + nestingMembers ms) (deepestFrom .outside n s)
  | first, [], u, h, n, s => by
    rw [SpellsMembers] at h
    rw [deepestFrom_blank h, nestingMembers]
    exact (Nat.max_eq_right (le_deepestFrom .outside n s)).symm
  | first, (k, x) :: ms, u, h, n, s => by
    rw [SpellsMembers] at h
    obtain ⟨w, w', v, v', t, rest, hw, hw', hv, hv', hx, hms, rfl⟩ := h
    have hitem := deepestFrom_spells x t hx n (rest ++ s)
    have hmembers := deepestFrom_spellsMembers false ms rest hms n s
    have hcolon : ∀ s, deepestFrom .outside n (':' :: s) = deepestFrom .outside n s := fun s => rfl
    have hstart : deepestFrom .outside n
        (w ++ comma first ++ w' ++ stringChars k ++ v ++ ':' :: v' ++ t ++ rest ++ s) =
          deepestFrom .outside n (t ++ (rest ++ s)) := by
      simp only [List.append_assoc, List.cons_append]
      rw [deepestFrom_blank hw, deepestFrom_comma, deepestFrom_blank hw', deepestFrom_stringChars,
        deepestFrom_blank hv, hcolon, deepestFrom_blank hv']
    rw [hstart, hitem, hmembers, nestingMembers]
    omega

end

/-- As many brackets are open at once in a text as lists and objects lie inside one another in the
value that it spells. -/
theorem deepest_of_spells {v : Json} {text : String} (h : v.Spells text.toList) :
    deepest text = nesting v := by
  have hscan := deepestFrom_spells v _ h 0 []
  rw [List.append_nil] at hscan
  rw [deepest, hscan, Nat.zero_add]
  exact Nat.max_eq_left (Nat.zero_le _)

end Mishap.Json
