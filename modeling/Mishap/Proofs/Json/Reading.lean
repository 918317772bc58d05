import Mishap.Proofs.Dictionary
import Mishap.Proofs.Json.Spelling

/-!
# Reading spelled values

However a value is spelled, the reader gives the value back if it may open enough brackets, and
else reports that the text is too deep (`value_of_spells`). The lemmas on items and members leave
open how the single parts are read.
-/

namespace Mishap.Json

open Schema (nesting nestingItems nestingMembers)

/-! ### Outcomes -/

/-- What comes of reading a part in which `n` brackets are open at once, where `depth` may be: the
part is read, or it is too deep. -/
structure Outcome {α : Type} (depth n : Nat) (x : α) (r : Except Fault α) : Prop where
  shallow : n ≤ depth → r = .ok x
  deep : depth < n → ∃ f, r = .error f ∧ f.cause = .tooDeep

namespace Outcome

variable {α β : Type} {depth n m : Nat} {x : α} {y : β} {r : Except Fault α}

/-- What is read to its end has the outcome of a text without depth. -/
theorem of_ok (h : r = .ok x) : Outcome depth 0 x r :=
  ⟨fun _ => h, fun hdeep => absurd hdeep (Nat.not_lt_zero depth)⟩

/-- Two parts in a row are as deep as the deeper one. -/
theorem bind {g : α → Except Fault β} (h : Outcome depth n x r) (h' : Outcome depth m y (g x)) :
    Outcome depth (max n m) y (r >>= g) := by
  constructor
  · intro hle
    rw [h.shallow (by omega)]
    exact h'.shallow (by omega)
  · intro hlt
    by_cases hn : n ≤ depth
    · rw [h.shallow hn]
      exact h'.deep (by omega)
    · obtain ⟨f, hf, hcause⟩ := h.deep (by omega)
      rw [hf]
      exact ⟨f, rfl, hcause⟩

/-- What follows a part and opens nothing. -/
theorem bind_ok {g : α → Except Fault β} (h : Outcome depth n x r) (h' : g x = .ok y) :
    Outcome depth n y (r >>= g) := by
  have hboth : Outcome depth (max n 0) y (r >>= g) := h.bind (of_ok h')
  rwa [Nat.max_zero] at hboth

/-- Inside a bracket one less may be opened. -/
theorem succ (h : Outcome depth n x r) : Outcome (depth + 1) (n + 1) x r :=
  ⟨fun hle => h.shallow (Nat.le_of_succ_le_succ hle),
    fun hlt => h.deep (Nat.lt_of_succ_lt_succ hlt)⟩

/-- Where no depth is left, a text that has depth is refused. -/
theorem refused (n : Nat) (x : α) (s : List Char) :
    Outcome 0 (n + 1) x (Reader.refuse .tooDeep s) :=
  ⟨fun hle => absurd hle (Nat.not_succ_le_zero n), fun _ => ⟨_, rfl, rfl⟩⟩

end Outcome

/-! ### How spellings begin and end -/

/-- The first character of a spelling tells the kind of the value. -/
def Starts : Json → Char → Prop
  | .null, c => c = 'n'
  | .bool b, c => c = if b then 't' else 'f'
  | .number _, c => c = '-' ∨ Text.isDigit c = true
  | .string _, c => c = '"'
  | .array _, c => c = '['
  | .object _, c => c = '\x7b'

/-- A text that spells a value begins with one of the characters that such a value can start
with. -/
theorem starts_of_spells {v : Json} {t : List Char} (h : v.Spells t) :
    ∃ c s, t = c :: s ∧ v.Starts c := by
  cases v with
  | null =>
    rw [Spells] at h
    exact ⟨'n', "ull".toList, h, rfl⟩
  | bool b =>
    rw [Spells] at h
    cases b with
    | true => exact ⟨'t', "rue".toList, h, rfl⟩
    | false => exact ⟨'f', "alse".toList, h, rfl⟩
  | number m =>
    cases m with
    | double x =>
      rw [Spells] at h
      exact h.elim
    | int i =>
      rw [Spells] at h
      rw [h.2, Text.integer]
      split
      · exact ⟨'-', _, rfl, .inl rfl⟩
      · have hdigit := fun c => @Text.isDigit_of_mem_decimal i.natAbs c
        cases hd : Text.decimal i.natAbs with
        | nil => exact absurd hd (Text.decimal_ne_nil _)
        | cons c s =>
          rw [hd] at hdigit
          exact ⟨c, s, rfl, .inr (hdigit c List.mem_cons_self)⟩
  | string s =>
    rw [Spells] at h
    exact ⟨'"', _, h, rfl⟩
  | array xs =>
    rw [Spells] at h
    obtain ⟨u, -, rfl⟩ := h
    exact ⟨'[', _, rfl, rfl⟩
  | object ms =>
    rw [Spells] at h
    obtain ⟨u, -, rfl⟩ := h
    exact ⟨'\x7b', _, rfl, rfl⟩

/-- A number begins with no other character than its sign or a digit. -/
theorem Starts.ne_of_number {m : Number} {c d : Char} (h : Starts (.number m) c)
    (hd : d ≠ '-' ∧ Text.isDigit d = false) : c ≠ d := by
  rintro rfl
  rcases h with hsign | hdigit
  · exact hd.1 hsign
  · exact absurd hdigit (Bool.eq_false_iff.mp hd.2)

/-- No spelling begins with white space or with a closing mark. -/
theorem Starts.spec {v : Json} {c : Char} (h : v.Starts c) :
    Reader.isSpace c = false ∧ c ≠ ']' ∧ c ≠ '\x7d' := by
  cases v with
  | number m =>
    refine ⟨Bool.eq_false_iff.mpr fun hspace => ?_, h.ne_of_number (by decide),
      h.ne_of_number (by decide)⟩
    simp only [Reader.isSpace, Bool.or_eq_true, beq_iff_eq] at hspace
    rcases hspace with ((heq | heq) | heq) | heq <;> exact h.ne_of_number (by decide) heq
  | bool b =>
    cases b <;> (cases h; decide)
  | _ =>
    cases h
    decide

/-- Only the spelling of `null` begins with its first letter. -/
theorem Starts.ne_n {v : Json} {c : Char} (h : v.Starts c) (hv : v ≠ .null) : c ≠ 'n' := by
  cases v with
  | null => exact absurd rfl hv
  | number m => exact h.ne_of_number (by decide)
  | bool b => cases b <;> (cases h; decide)
  | _ =>
    cases h
    decide

/-- Behind an item no number goes on. -/
theorem stops_of_spellsItems {xs : List Json} {u : List Char} (h : SpellsItems false xs u)
    (s : List Char) : Reader.Stops (u ++ ']' :: s) := by
  cases xs with
  | nil =>
    rw [SpellsItems] at h
    exact .blank_append h (.cons (by decide) s)
  | cons x xs =>
    rw [SpellsItems] at h
    obtain ⟨w, w', t, rest, hw, -, -, -, rfl⟩ := h
    simp only [List.append_assoc]
    exact .blank_append hw (.cons (by decide) _)

/-- Behind the value of a member no number goes on. -/
theorem stops_of_spellsMembers {ms : List (String × Json)} {u : List Char}
    (h : SpellsMembers false ms u) (s : List Char) : Reader.Stops (u ++ '\x7d' :: s) := by
  cases ms with
  | nil =>
    rw [SpellsMembers] at h
    exact .blank_append h (.cons (by decide) s)
  | cons m ms =>
    obtain ⟨k, x⟩ := m
    rw [SpellsMembers] at h
    obtain ⟨w, w', v, v', t, rest, hw, -, -, -, -, -, rfl⟩ := h
    simp only [List.append_assoc]
    exact .blank_append hw (.cons (by decide) _)

/-- Each item takes at least one character. -/
theorem length_le_of_spellsItems {first : Bool} {xs : List Json} {u : List Char}
    (h : SpellsItems first xs u) : xs.length ≤ u.length := by
  induction xs generalizing first u with
  | nil => exact Nat.zero_le _
  | cons x xs ih =>
    rw [SpellsItems] at h
    obtain ⟨w, w', t, rest, -, -, hx, hxs, rfl⟩ := h
    obtain ⟨c, s, rfl, -⟩ := starts_of_spells hx
    have hrest := ih hxs
    simp only [List.length_append, List.length_cons]
    omega

/-- Each member takes at least one character. -/
theorem length_le_of_spellsMembers {first : Bool} {ms : List (String × Json)} {u : List Char}
    (h : SpellsMembers first ms u) : ms.length ≤ u.length := by
  induction ms generalizing first u with
  | nil => exact Nat.zero_le _
  | cons m ms ih =>
    obtain ⟨k, x⟩ := m
    rw [SpellsMembers] at h
    obtain ⟨w, w', v, v', t, rest, -, -, -, -, -, hms, rfl⟩ := h
    have hrest := ih hms
    simp only [List.length_append, List.length_cons]
    omega

namespace Reader

/-! ### Items and members -/

/-- Items end where no next one is announced. -/
theorem items_end {α : Type} {one : Reader α} {first : Bool} {s : List Char}
    (h : nextItem first s = .ok none) (fuel : Nat) :
    items one (fuel + 1) first s = .ok ([], s) := by
  rw [items, h]
  rfl

/-- Where a next item is announced, it is read, and then the others. -/
theorem items_next {α : Type} {one : Reader α} {first : Bool} {s t : List Char}
    (h : nextItem first s = .ok (some t)) (fuel : Nat) :
    items one (fuel + 1) first s =
      (one t >>= fun p => items one fuel false p.2 >>= fun q => .ok (p.1 :: q.1, q.2)) := by
  rw [items, h]
  rfl

/-- Members end where no next one is announced. -/
theorem members_end {σ : Type} {one : σ → String → Reader σ} {first : Bool} {s : List Char}
    (h : nextMember first s = .ok none) (fuel : Nat) (state : σ) :
    members one (fuel + 1) first state s = .ok (state, s) := by
  rw [members, h]
  rfl

/-- Where a next member is announced, its name and its value are read, and then the others. -/
theorem members_next {σ : Type} {one : σ → String → Reader σ} {first : Bool} {s t : List Char}
    (h : nextMember first s = .ok (some t)) (fuel : Nat) (state : σ) :
    members one (fuel + 1) first state s =
      (string t >>= fun p => one state p.1 p.2 >>= fun q => members one fuel false q.1 q.2) := by
  rw [members, h]
  rfl

/-- The text of an item up to its first character, and what follows that. -/
theorem item_append (w w' t rest s : List Char) (c : Char) (first : Bool) :
    w ++ comma first ++ w' ++ (c :: t) ++ rest ++ ']' :: s =
      w ++ comma first ++ w' ++ c :: (t ++ (rest ++ ']' :: s)) := by
  simp

/-- Items that are read one by one are read as a list. -/
theorem items_of_spells {one : Reader Json} {depth : Nat} {first : Bool} {xs : List Json}
    {u : List Char} (h : SpellsItems first xs u)
    (hone : ∀ x ∈ xs, ∀ t, x.Spells t → ∀ s, Stops s →
      Outcome depth (nesting x) (x, s) (one (t ++ s)))
    {fuel : Nat} (hfuel : xs.length < fuel) (s : List Char) :
    ∃ w, Blank w ∧ Outcome depth (nestingItems xs) (xs, w ++ ']' :: s)
      (items one fuel first (u ++ ']' :: s)) := by
  induction xs generalizing first u fuel with
  | nil =>
    obtain ⟨fuel, rfl⟩ := Nat.exists_eq_add_of_lt hfuel
    rw [SpellsItems] at h
    exact ⟨u, h, .of_ok (items_end (nextItem_end h first s) _)⟩
  | cons x xs ih =>
    cases fuel with
    | zero => exact absurd hfuel (Nat.not_lt_zero _)
    | succ fuel =>
      rw [SpellsItems] at h
      obtain ⟨w, w', t, rest, hw, hw', hx, hxs, rfl⟩ := h
      obtain ⟨c, t', rfl, hstart⟩ := starts_of_spells hx
      obtain ⟨hspace, hclose, -⟩ := hstart.spec
      obtain ⟨v, hv, hrest⟩ := ih hxs (fun y hy => hone y (List.mem_cons_of_mem x hy))
        (Nat.lt_of_succ_lt_succ hfuel)
      have hitem := hone x List.mem_cons_self _ hx _ (stops_of_spellsItems hxs s)
      rw [item_append, items_next (nextItem_append hw hw' first hspace hclose _), nestingItems]
      exact ⟨v, hv, hitem.bind (hrest.bind_ok rfl)⟩

/-- Members that are read one by one are entered one after the other. -/
theorem members_of_spells {one : Dictionary Json → String → Reader (Dictionary Json)}
    {depth : Nat} {first : Bool} {ms : List (String × Json)} {u : List Char}
    (h : SpellsMembers first ms u)
    (hone : ∀ found k x, (k, x) ∈ ms → Dictionary.get? k found = none →
      ∀ v v' t, Blank v → Blank v' → x.Spells t → ∀ s, Stops s →
        Outcome depth (nesting x) (Dictionary.insert k x found, s)
          (one found k (v ++ ':' :: (v' ++ (t ++ s)))))
    (hnodup : (ms.map (·.1)).Nodup) {found : Dictionary Json}
    (hfree : ∀ m ∈ ms, Dictionary.get? m.1 found = none)
    {fuel : Nat} (hfuel : ms.length < fuel) (s : List Char) :
    ∃ w, Blank w ∧ Outcome depth (nestingMembers ms)
      (Dictionary.insertAll ms found, w ++ '\x7d' :: s)
      (members one fuel first found (u ++ '\x7d' :: s)) := by
  induction ms generalizing first u fuel found with
  | nil =>
    obtain ⟨fuel, rfl⟩ := Nat.exists_eq_add_of_lt hfuel
    rw [SpellsMembers] at h
    exact ⟨u, h, .of_ok (members_end (nextMember_end h first s) _ found)⟩
  | cons m ms ih =>
    obtain ⟨k, x⟩ := m
    cases fuel with
    | zero => exact absurd hfuel (Nat.not_lt_zero _)
    | succ fuel =>
      rw [SpellsMembers] at h
      obtain ⟨w, w', v, v', t, rest, hw, hw', hv, hv', hx, hms, rfl⟩ := h
      obtain ⟨hfirst, hrest⟩ := List.nodup_cons.mp hnodup
      have hfree' : ∀ m ∈ ms, Dictionary.get? m.1 (Dictionary.insert k x found) = none := by
        intro m hm
        have hne : k ≠ m.1 := fun heq => hfirst (List.mem_map.mpr ⟨m, hm, heq.symm⟩)
        rw [Dictionary.get?_insert, if_neg hne]
        exact hfree m (List.mem_cons_of_mem _ hm)
      obtain ⟨y, hy, hothers⟩ := ih hms
        (fun found l z hz => hone found l z (List.mem_cons_of_mem _ hz)) hrest hfree'
        (Nat.lt_of_succ_lt_succ hfuel)
      have hmember := hone found k x List.mem_cons_self (hfree _ List.mem_cons_self) v v' t hv hv'
        hx _ (stops_of_spellsMembers hms s)
      obtain ⟨name, hname, hstring⟩ :=
        string_chars k (v ++ ':' :: (v' ++ (t ++ (rest ++ '\x7d' :: s))))
      have htext : w ++ comma first ++ w' ++ stringChars k ++ v ++ ':' :: v' ++ t ++ rest ++
          '\x7d' :: s = w ++ comma first ++ w' ++ '"' :: name := by
        rw [← hname]
        simp
      rw [htext, members_next (nextMember_append hw hw' first name), hstring, nestingMembers]
      exact ⟨y, hy, hmember.bind hothers⟩

/-- The members between two braces are entered one after the other, up to the closing brace. -/
theorem members_of_braces {one : Dictionary Json → String → Reader (Dictionary Json)}
    {depth : Nat} {ms : List (String × Json)} {u : List Char} (h : SpellsMembers true ms u)
    (hone : ∀ found k x, (k, x) ∈ ms → Dictionary.get? k found = none →
      ∀ v v' t, Blank v → Blank v' → x.Spells t → ∀ s, Stops s →
        Outcome depth (nesting x) (Dictionary.insert k x found, s)
          (one found k (v ++ ':' :: (v' ++ (t ++ s)))))
    (hnodup : (ms.map (·.1)).Nodup) (s : List Char) :
    ∃ w, Blank w ∧ Outcome depth (nestingMembers ms)
      (Dictionary.insertAll ms [], w ++ '\x7d' :: s)
      (members one ((u ++ ['\x7d'] ++ s).length + 1) true [] (u ++ ['\x7d'] ++ s)) := by
  have htext : u ++ ['\x7d'] ++ s = u ++ '\x7d' :: s := by simp
  have hfuel : ms.length < (u ++ '\x7d' :: s).length + 1 := by
    have hlength := length_le_of_spellsMembers h
    simp only [List.length_append]
    omega
  rw [htext]
  exact members_of_spells h hone hnodup (fun m _ => Dictionary.get?_nil m.1) hfuel s

end Reader

/-! ### Values -/

/-- All numbers in the value are integers of the 64-bit ranges, and the members of its objects
ascend. -/
inductive Regular : Json → Prop
  | null : Regular .null
  | bool (b : Bool) : Regular (.bool b)
  | int {i : Int} (range : Number.InRange i) : Regular (.number (.int i))
  | string (s : String) : Regular (.string s)
  | array {xs : List Json} (items : ∀ x ∈ xs, Regular x) : Regular (.array xs)
  | object {ms : List (String × Json)} (order : Dictionary.Ascending ms)
    (members : ∀ m ∈ ms, Regular m.2) : Regular (.object ms)

/-- A regular value has whole numbers alone. -/
theorem Regular.integral {v : Json} (h : v.Regular) : v.Integral := by
  induction h with
  | null => exact .null
  | bool b => exact .bool b
  | int range => exact .int range
  | string s => exact .string s
  | array _ ih => exact .array ih
  | object _ _ ih => exact .object ih

namespace Reader

/-- A value that is no list and no object is read back. -/
theorem scalar_of_spells {v : Json} {t : List Char} (h : v.Spells t) {s : List Char} (hs : Stops s)
    (harray : ∀ xs, v ≠ .array xs) (hobject : ∀ ms, v ≠ .object ms) :
    scalar (t ++ s) = .ok (v, s) := by
  cases v with
  | array xs => exact absurd rfl (harray xs)
  | object ms => exact absurd rfl (hobject ms)
  | null =>
    rw [Spells] at h
    subst h
    rfl
  | bool b =>
    rw [Spells] at h
    subst h
    cases b <;> rfl
  | string x =>
    rw [Spells] at h
    obtain ⟨name, hname, hstring⟩ := string_chars x s
    rw [h, hname]
    change (string name).map _ = _
    rw [hstring]
    rfl
  | number m =>
    obtain ⟨c, t', rfl, hstart⟩ := starts_of_spells h
    cases m with
    | double x =>
      rw [Spells] at h
      exact h.elim
    | int i =>
      rw [Spells] at h
      have hnumber := number_integer h.1 hs
      rw [← h.2] at hnumber
      have hword : wordFrom? c = none := by
        unfold wordFrom?
        split
        · exact absurd rfl (hstart.ne_of_number (by decide))
        · exact absurd rfl (hstart.ne_of_number (by decide))
        · exact absurd rfl (hstart.ne_of_number (by decide))
        · rfl
      have hquote : c ≠ '"' := hstart.ne_of_number (by decide)
      have hsign : c = '-' ∨ Text.isDigit c = true := hstart
      rw [List.cons_append] at hnumber ⊢
      rw [scalar.eq_def]
      simp only [hword, if_neg hquote, if_pos hsign, hnumber]
      rfl

/-- What begins with no bracket is read as a scalar. -/
theorem valueWith_scalar {inner : Option (Reader Json)} {c : Char} (hspace : isSpace c = false)
    (hsquare : c ≠ '[') (hcurly : c ≠ '\x7b') (s : List Char) :
    valueWith inner (c :: s) = scalar (c :: s) := by
  rw [valueWith, skipSpace_cons hspace]
  split
  · next heq => exact absurd (List.cons.inj heq).1 hsquare
  · next heq => exact absurd (List.cons.inj heq).1 hcurly
  · rfl

/-- White space before a value is passed over. -/
theorem value_append {w : List Char} (hw : Blank w) (depth : Nat) (s : List Char) :
    value depth (w ++ s) = value depth s := by
  cases depth with
  | zero => rw [value, valueWith, skipSpace_append hw, valueWith]
  | succ depth => rw [value, valueWith, skipSpace_append hw, valueWith]

/-- A value that is no list and no object is read back however many brackets may be opened. -/
theorem valueWith_of_spells_scalar (inner : Option (Reader Json)) {v : Json} {t : List Char}
    (h : v.Spells t) {s : List Char} (hs : Stops s) (harray : ∀ xs, v ≠ .array xs)
    (hobject : ∀ ms, v ≠ .object ms) : valueWith inner (t ++ s) = .ok (v, s) := by
  have hscalar := scalar_of_spells h hs harray hobject
  obtain ⟨c, t, rfl, hstart⟩ := starts_of_spells h
  rw [List.cons_append] at hscalar ⊢
  have hopens : c ≠ '[' ∧ c ≠ '\x7b' := by
    cases v with
    | array xs => exact absurd rfl (harray xs)
    | object ms => exact absurd rfl (hobject ms)
    | number m => exact ⟨hstart.ne_of_number (by decide), hstart.ne_of_number (by decide)⟩
    | bool b => cases b <;> (cases hstart; decide)
    | _ =>
      cases hstart
      decide
  rw [valueWith_scalar hstart.spec.1 hopens.1 hopens.2, hscalar]

/-- A list is read back if its items are. -/
theorem list_of_spells {one : Reader Json} {depth : Nat} {xs : List Json} {u : List Char}
    (h : SpellsItems true xs u)
    (hone : ∀ x ∈ xs, ∀ t, x.Spells t → ∀ s, Stops s →
      Outcome depth (nesting x) (x, s) (one (t ++ s))) (s : List Char) :
    Outcome (depth + 1) (nesting (.array xs)) (Json.array xs, s)
      (items one ((u ++ [']'] ++ s).length + 1) true (u ++ [']'] ++ s) >>= fun p =>
        closeList p.2 >>= fun s => .ok (.array p.1, s)) := by
  have htext : u ++ [']'] ++ s = u ++ ']' :: s := by simp
  have hfuel : xs.length < (u ++ ']' :: s).length + 1 := by
    have hlength := length_le_of_spellsItems h
    simp only [List.length_append]
    omega
  obtain ⟨w, hw, hitems⟩ := items_of_spells h hone hfuel s
  rw [htext, nesting]
  refine (hitems.bind_ok ?_).succ
  rw [closeList_append hw]
  rfl

/-- Reads a member of an object, behind its name, and enters it. -/
def enter (one : Reader Json) (found : Dictionary Json) (name : String) :
    Reader (Dictionary Json) := fun s =>
  colon s >>= fun s => one s >>= fun p => .ok (Dictionary.insert name p.1 found, p.2)

/-- A member is read back if its value is. -/
theorem enter_of_spells {one : Reader Json} (hblank : ∀ w, Blank w → ∀ s, one (w ++ s) = one s)
    {depth : Nat} {x : Json} {v v' t s : List Char} (hv : Blank v) (hv' : Blank v')
    (h : Outcome depth (nesting x) (x, s) (one (t ++ s))) (found : Dictionary Json) (k : String) :
    Outcome depth (nesting x) (Dictionary.insert k x found, s)
      (enter one found k (v ++ ':' :: (v' ++ (t ++ s)))) := by
  have hcolon : enter one found k (v ++ ':' :: (v' ++ (t ++ s))) =
      (one (t ++ s) >>= fun p => .ok (Dictionary.insert k p.1 found, p.2)) := by
    rw [enter, colon_append hv, ← hblank v' hv']
    rfl
  rw [hcolon]
  exact h.bind_ok rfl

/-- An object is read back if the values of its members are. -/
theorem object_of_spells {one : Reader Json} {depth : Nat} {ms : List (String × Json)}
    {u : List Char} (h : SpellsMembers true ms u) (hms : Dictionary.Ascending ms)
    (hblank : ∀ w, Blank w → ∀ s, one (w ++ s) = one s)
    (hone : ∀ m ∈ ms, ∀ t, m.2.Spells t → ∀ s, Stops s →
      Outcome depth (nesting m.2) (m.2, s) (one (t ++ s))) (s : List Char) :
    Outcome (depth + 1) (nesting (.object ms)) (Json.object ms, s)
      (members (enter one) ((u ++ ['\x7d'] ++ s).length + 1) true [] (u ++ ['\x7d'] ++ s) >>=
        fun p => closeObject p.2 >>= fun s => .ok (.object p.1, s)) := by
  obtain ⟨w, hw, hmembers⟩ := members_of_braces h
    (fun found k x hmem _ v v' t hv hv' hx s hs =>
      enter_of_spells hblank hv hv' (hone (k, x) hmem t hx s hs) found k) hms.nodup s
  have hentries : Dictionary.insertAll ms [] = ms := Dictionary.ofEntries_of_ascending hms
  rw [nesting]
  refine (hmembers.bind_ok ?_).succ
  rw [closeObject_append hw, hentries]
  rfl

/-- However a value is spelled, it is read back as far as enough brackets may be opened. -/
theorem value_of_spells (depth : Nat) {v : Json} (hv : v.Regular) {t : List Char} (h : v.Spells t)
    {s : List Char} (hs : Stops s) :
    Outcome depth (nesting v) (v, s) (value depth (t ++ s)) := by
  induction depth generalizing v t s with
  | zero =>
    cases hv with
    | array _ =>
      rw [Spells] at h
      obtain ⟨u, -, rfl⟩ := h
      exact .refused _ _ _
    | object _ _ =>
      rw [Spells] at h
      obtain ⟨u, -, rfl⟩ := h
      exact .refused _ _ _
    | _ => exact .of_ok (valueWith_of_spells_scalar none h hs nofun nofun)
  | succ depth ih =>
    cases hv with
    | array items =>
      rw [Spells] at h
      obtain ⟨u, hu, rfl⟩ := h
      exact list_of_spells hu (fun x hx t ht s hs => ih (items x hx) ht hs) s
    | object order members =>
      rw [Spells] at h
      obtain ⟨u, hu, rfl⟩ := h
      exact object_of_spells hu order (fun w hw => value_append hw depth)
        (fun m hm t ht s hs => ih (members m hm) ht hs) s
    | _ => exact .of_ok (valueWith_of_spells_scalar _ h hs nofun nofun)

end Reader

/-- However a value is spelled, the text holds that value and no other. -/
theorem read_of_spells {v : Json} (hv : v.Regular) {text : String} (h : v.Spells text.toList) :
    Outcome maxDepth (nesting v) v (read text) := by
  have hvalue := Reader.value_of_spells maxDepth hv h .nil
  rw [List.append_nil] at hvalue
  exact hvalue.bind_ok rfl

end Mishap.Json
