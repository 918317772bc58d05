import Mishap.Proofs.Json.Content
import Mishap.Proofs.Json.Reading

/-!
# Trees of tokens

What is left of a JSON text without the white space between its tokens. A tree keeps each number
and each string as it is written, so texts with one tree differ in white space alone, and what
the reader makes of a text depends on the tree only (`Tree.gives_value`). The text that is written
for a value has the tree of the value (`Tree.spelled_pretty`).
-/

namespace Mishap.Json

/-- The tokens of a JSON text as they lie inside one another. A number is given by its characters,
a string and a name by those between the quotes. -/
inductive Tree where
  | null
  | bool (b : Bool)
  | number (token : List Char)
  | string (content : List Char)
  | array (items : List Tree)
  | object (members : List (List Char × Tree))
  deriving Inhabited, Repr

namespace Tree

open Reader (Blank comma)

mutual

/-- A text has a tree: between its tokens there is any white space. -/
def Spells : Tree → List Char → Prop
  | .null, t => t = "null".toList
  | .bool b, t => t = (if b then "true" else "false").toList
  | .number n, t => Numeral n ∧ t = n
  | .string x, t => Content x ∧ t = '"' :: x ++ ['"']
  | .array Ts, t => ∃ u, SpellsItems true Ts u ∧ t = '[' :: u ++ [']']
  | .object ms, t => ∃ u, SpellsMembers true ms u ∧ t = '\x7b' :: u ++ ['\x7d']

/-- A text has the items of a list, with all white space around them. -/
def SpellsItems : Bool → List Tree → List Char → Prop
  | _, [], u => Blank u
  | first, T :: Ts, u => ∃ w w' t rest, Blank w ∧ Blank w' ∧ Spells T t ∧
      SpellsItems false Ts rest ∧ u = w ++ comma first ++ w' ++ t ++ rest

/-- A text has the members of an object, with all white space around them. -/
def SpellsMembers : Bool → List (List Char × Tree) → List Char → Prop
  | _, [], u => Blank u
  | first, (k, T) :: ms, u => ∃ w w' v v' t rest, Blank w ∧ Blank w' ∧ Blank v ∧ Blank v' ∧
      Content k ∧ Spells T t ∧ SpellsMembers false ms rest ∧
      u = w ++ comma first ++ w' ++ ('"' :: k ++ ['"']) ++ v ++ ':' :: v' ++ t ++ rest

end

/-- A whole text has a tree, with any white space before and behind it. -/
def Spelled (T : Tree) (text : String) : Prop :=
  ∃ w t w', Blank w ∧ T.Spells t ∧ Blank w' ∧ text.toList = w ++ t ++ w'

end Tree

mutual

/-- The tokens that are written for a value. -/
def tree : Json → Tree
  | .null => .null
  | .bool b => .bool b
  | .number n => .number (numberChars n)
  | .string s => .string (s.toList.flatMap escapeChar)
  | .array xs => .array (treeItems xs)
  | .object ms => .object (treeMembers ms)

/-- The tokens that are written for the items of a list. -/
def treeItems : List Json → List Tree
  | [] => []
  | x :: xs => tree x :: treeItems xs

/-- The tokens that are written for the members of an object. -/
def treeMembers : List (String × Json) → List (List Char × Tree)
  | [] => []
  | (k, x) :: ms => (k.toList.flatMap escapeChar, tree x) :: treeMembers ms

end

namespace Tree

open Reader (Blank Stops comma)

/-! ### Written texts -/

mutual

/-- The indented text of a value spells its tree. -/
theorem spells_prettyChars (level : Nat) : (v : Json) → v.tree.Spells (v.prettyChars level)
  | .null => by rw [prettyChars, tree, Spells]
  | .bool true => by rw [prettyChars, tree, Spells, if_pos rfl]
  | .bool false => by rw [prettyChars, tree, Spells, if_neg Bool.false_ne_true]
  | .number n => by
    rw [prettyChars, tree, Spells]
    exact ⟨numeral_numberChars n, rfl⟩
  | .string s => by
    rw [prettyChars, tree, Spells]
    exact ⟨content_escaped s.toList, rfl⟩
  | .array [] => by
    rw [prettyChars, tree, treeItems, Spells]
    exact ⟨[], by rw [SpellsItems]; exact .nil, rfl⟩
  | .array (x :: xs) => by
    have hxs := spells_prettyItems (level + 1) (newline level) (Reader.blank_newline level) xs
    rw [prettyChars, tree, treeItems, Spells]
    refine ⟨newline (level + 1) ++ prettyChars (level + 1) x ++
      (prettyItems (level + 1) xs ++ newline level), ?_, by simp⟩
    rw [SpellsItems]
    exact ⟨[], newline (level + 1), _, _, .nil, Reader.blank_newline _,
      spells_prettyChars (level + 1) x, hxs, rfl⟩
  | .object [] => by
    rw [prettyChars, tree, treeMembers, Spells]
    exact ⟨[], by rw [SpellsMembers]; exact .nil, rfl⟩
  | .object ((k, x) :: ms) => by
    have hms := spells_prettyMembers (level + 1) (newline level) (Reader.blank_newline level) ms
    rw [prettyChars, tree, treeMembers, Spells]
    refine ⟨newline (level + 1) ++ stringChars k ++ ':' :: [' '] ++ prettyChars (level + 1) x ++
      (prettyMembers (level + 1) ms ++ newline level), ?_, by simp⟩
    rw [SpellsMembers]
    exact ⟨[], newline (level + 1), [], [' '], _, _, .nil, Reader.blank_newline _, .nil,
      Reader.blank_space, content_escaped _, spells_prettyChars (level + 1) x, hms,
      by simp [comma, stringChars]⟩

/-- The indented texts of items, with a blank text behind them, spell their trees. -/
theorem spells_prettyItems (level : Nat) (w : List Char) (hw : Blank w) :
    (xs : List Json) → SpellsItems false (treeItems xs) (prettyItems level xs ++ w)
  | [] => by rw [prettyItems, treeItems, SpellsItems]; exact hw
  | x :: xs => by
    have hxs := spells_prettyItems level w hw xs
    rw [prettyItems, treeItems, SpellsItems]
    exact ⟨[], newline level, _, _, .nil, Reader.blank_newline _, spells_prettyChars level x, hxs,
      by simp [comma]⟩

/-- The indented texts of members, with a blank text behind them, spell their trees. -/
theorem spells_prettyMembers (level : Nat) (w : List Char) (hw : Blank w) :
    (ms : List (String × Json)) →
      SpellsMembers false (treeMembers ms) (prettyMembers level ms ++ w)
  | [] => by rw [prettyMembers, treeMembers, SpellsMembers]; exact hw
  | (k, x) :: ms => by
    have hms := spells_prettyMembers level w hw ms
    rw [prettyMembers, treeMembers, SpellsMembers]
    exact ⟨[], newline level, [], [' '], _, _, .nil, Reader.blank_newline _, .nil,
      Reader.blank_space, content_escaped _, spells_prettyChars level x, hms,
      by simp [comma, stringChars]⟩

end

/-- The text that is written for a value has the tree of the value. -/
theorem spelled_pretty (v : Json) : v.tree.Spelled v.pretty :=
  ⟨[], _, [], .nil, spells_prettyChars 0 v, .nil, by simp [pretty]⟩

/-! ### How texts of trees begin and end -/

/-- The kind of a tree is told from the first character of its texts, which is neither white space
nor the end of a list. -/
structure Tells (T : Tree) (c : Char) : Prop where
  space : Reader.isSpace c = false
  close : c ≠ ']'
  null : c = 'n' → T = .null
  bool : c = 't' ∨ c = 'f' → ∃ b, T = .bool b
  string : c = '"' → ∃ x, T = .string x
  array : c = '[' → ∃ Ts, T = .array Ts
  object : c = '\x7b' → ∃ ms, T = .object ms
  number : c = '-' ∨ Text.isDigit c = true → ∃ n, T = .number n

/-- A number begins with no other character than its sign or a digit. -/
theorem tells_number (n : List Char) {c : Char} (hc : c = '-' ∨ Text.isDigit c = true) :
    Tells (.number n) c := by
  have hne : ∀ d, d ≠ '-' → Text.isDigit d = false → c ≠ d := by
    rintro d hminus hdigit rfl
    rcases hc with hsign | hrun
    · exact hminus hsign
    · exact absurd hrun (Bool.eq_false_iff.mp hdigit)
  refine ⟨Bool.eq_false_iff.mpr fun hspace => ?_, hne ']' (by decide) rfl,
    fun h => absurd h (hne 'n' (by decide) rfl), fun h => ?_,
    fun h => absurd h (hne '"' (by decide) rfl), fun h => absurd h (hne '[' (by decide) rfl),
    fun h => absurd h (hne '\x7b' (by decide) rfl), fun _ => ⟨n, rfl⟩⟩
  · simp only [Reader.isSpace, Bool.or_eq_true, beq_iff_eq] at hspace
    rcases hspace with ((h | h) | h) | h <;> exact hne _ (by decide) rfl h
  · rcases h with h | h <;> exact absurd h (hne _ (by decide) rfl)

/-- A text that spells a tree begins with one of the characters that such a tree can start with. -/
theorem tells_of_spells {T : Tree} {t : List Char} (h : T.Spells t) :
    ∃ c s, t = c :: s ∧ Tells T c := by
  cases T with
  | null =>
    rw [Spells] at h
    refine ⟨'n', "ull".toList, h, by decide, by decide, fun _ => rfl, ?_, ?_, ?_, ?_, ?_⟩ <;>
      exact fun hc => absurd hc (by decide)
  | bool b =>
    rw [Spells] at h
    cases b with
    | true =>
      refine ⟨'t', "rue".toList, h, by decide, by decide, ?_, fun _ => ⟨true, rfl⟩, ?_, ?_, ?_,
        ?_⟩ <;> exact fun hc => absurd hc (by decide)
    | false =>
      refine ⟨'f', "alse".toList, h, by decide, by decide, ?_, fun _ => ⟨false, rfl⟩, ?_, ?_, ?_,
        ?_⟩ <;> exact fun hc => absurd hc (by decide)
  | number n =>
    rw [Spells] at h
    obtain ⟨hn, rfl⟩ := h
    obtain ⟨c, s, rfl, hc⟩ := hn.exists_cons
    exact ⟨c, s, rfl, tells_number _ hc⟩
  | string x =>
    rw [Spells] at h
    refine ⟨'"', _, h.2, by decide, by decide, ?_, ?_, fun _ => ⟨x, rfl⟩, ?_, ?_, ?_⟩ <;>
      exact fun hc => absurd hc (by decide)
  | array Ts =>
    rw [Spells] at h
    obtain ⟨u, -, rfl⟩ := h
    refine ⟨'[', _, rfl, by decide, by decide, ?_, ?_, ?_, fun _ => ⟨Ts, rfl⟩, ?_, ?_⟩ <;>
      exact fun hc => absurd hc (by decide)
  | object ms =>
    rw [Spells] at h
    obtain ⟨u, -, rfl⟩ := h
    refine ⟨'\x7b', _, rfl, by decide, by decide, ?_, ?_, ?_, ?_, fun _ => ⟨ms, rfl⟩, ?_⟩ <;>
      exact fun hc => absurd hc (by decide)

/-- Only lists and objects open a bracket. -/
theorem Tells.ne_open {T : Tree} {c : Char} (h : Tells T c) (harray : ∀ Ts, T ≠ .array Ts)
    (hobject : ∀ ms, T ≠ .object ms) : c ≠ '[' ∧ c ≠ '\x7b' :=
  ⟨fun hc => (h.array hc).elim harray, fun hc => (h.object hc).elim hobject⟩

/-- A number begins like no word and no string. -/
theorem Tells.of_number {n : List Char} {c : Char} (h : Tells (.number n) c) :
    Reader.wordFrom? c = none ∧ c ≠ '"' := by
  refine ⟨?_, fun hc => (h.string hc).elim nofun⟩
  unfold Reader.wordFrom?
  split
  · exact absurd (h.null rfl) nofun
  · exact (h.bool (.inl rfl)).elim nofun
  · exact (h.bool (.inr rfl)).elim nofun
  · rfl

/-- Behind an item no number goes on. -/
theorem stops_of_spellsItems {Ts : List Tree} {u : List Char} (h : SpellsItems false Ts u)
    (s : List Char) : Reader.Stops (u ++ ']' :: s) := by
  cases Ts with
  | nil =>
    rw [SpellsItems] at h
    exact .blank_append h (.cons (by decide) s)
  | cons T Ts =>
    rw [SpellsItems] at h
    obtain ⟨w, w', t, rest, hw, -, -, -, rfl⟩ := h
    simp only [List.append_assoc]
    exact .blank_append hw (.cons (by decide) _)

/-- Behind the value of a member no number goes on. -/
theorem stops_of_spellsMembers {ms : List (List Char × Tree)} {u : List Char}
    (h : SpellsMembers false ms u) (s : List Char) : Reader.Stops (u ++ '\x7d' :: s) := by
  cases ms with
  | nil =>
    rw [SpellsMembers] at h
    exact .blank_append h (.cons (by decide) s)
  | cons m ms =>
    obtain ⟨k, T⟩ := m
    rw [SpellsMembers] at h
    obtain ⟨w, w', v, v', t, rest, hw, -, -, -, -, -, -, rfl⟩ := h
    simp only [List.append_assoc]
    exact .blank_append hw (.cons (by decide) _)

/-- Each item takes at least one character. -/
theorem length_le_of_spellsItems {first : Bool} {Ts : List Tree} {u : List Char}
    (h : SpellsItems first Ts u) : Ts.length ≤ u.length := by
  induction Ts generalizing first u with
  | nil => exact Nat.zero_le _
  | cons T Ts ih =>
    rw [SpellsItems] at h
    obtain ⟨w, w', t, rest, -, -, hT, hTs, rfl⟩ := h
    obtain ⟨c, s, rfl, -⟩ := tells_of_spells hT
    have hrest := ih hTs
    simp only [List.length_append, List.length_cons]
    omega

/-- Each member takes at least one character. -/
theorem length_le_of_spellsMembers {first : Bool} {ms : List (List Char × Tree)} {u : List Char}
    (h : SpellsMembers first ms u) : ms.length ≤ u.length := by
  induction ms generalizing first u with
  | nil => exact Nat.zero_le _
  | cons m ms ih =>
    obtain ⟨k, T⟩ := m
    rw [SpellsMembers] at h
    obtain ⟨w, w', v, v', t, rest, -, -, -, -, -, -, hms, rfl⟩ := h
    have hrest := ih hms
    simp only [List.length_append, List.length_cons]
    omega

/-- The text of a member up to the quote of its name, and what follows that. -/
theorem member_append (w w' k v v' t rest s : List Char) (first : Bool) :
    w ++ comma first ++ w' ++ ('"' :: k ++ ['"']) ++ v ++ ':' :: v' ++ t ++ rest ++ '\x7d' :: s =
      w ++ comma first ++ w' ++
        '"' :: (k ++ '"' :: (v ++ ':' :: (v' ++ (t ++ (rest ++ '\x7d' :: s))))) := by
  simp

/-! ### What readers make of trees -/

/-- The number that a token is read as. -/
def number? (token : List Char) : Option Number := (Reader.number token).toOption.map (·.1)

/-- The string that is read from what stands between two quotes. -/
def string? (content : List Char) : Option String :=
  (Reader.string (content ++ ['"'])).toOption.map (·.1)

/-- The members of an object, taken one after the other. -/
def members? {σ : Type} (one : σ → String → Tree → Option σ) (state : σ)
    (ms : List (List Char × Tree)) : Option σ :=
  ms.foldlM (fun state m => (string? m.1).bind fun name => one state name m.2) state

/-- Enters the value of a member under its name. -/
def enter? (one : Tree → Option Json) (found : Dictionary Json) (name : String) (T : Tree) :
    Option (Dictionary Json) :=
  (one T).map fun v => Dictionary.insert name v found

/-- The value of a tree of which the inner parts are read by `inner`. -/
def valueWith? (inner : Option (Tree → Option Json)) : Tree → Option Json
  | .null => some .null
  | .bool b => some (.bool b)
  | .number n => (number? n).map .number
  | .string x => (string? x).map .string
  | .array Ts => inner.bind fun one => (Ts.mapM one).map .array
  | .object ms => inner.bind fun one => (members? (enter? one) [] ms).map .object

/-- The value of a tree with at most `depth` brackets inside one another. -/
def value? : Nat → Tree → Option Json
  | 0 => valueWith? none
  | depth + 1 => valueWith? (some (value? depth))

private theorem Gives.toOption_eq {α : Type} {r : Except Fault (α × List Char)} {x? : Option α}
    {s : List Char} (h : Gives r x? s) : r.toOption.map (·.1) = x? := by
  cases x? with
  | some x =>
    have hread : r = .ok (x, s) := h
    rw [hread]
    rfl
  | none =>
    obtain ⟨e, rfl⟩ := h
    rfl

/-- A number is read as if it stood alone. -/
theorem gives_number {t : List Char} (ht : Numeral t) {s : List Char} (hs : Stops s) :
    Gives (Reader.number (t ++ s)) (number? t) s := by
  obtain ⟨x?, hx⟩ := Reader.settles_number ht
  have halone := hx [] .nil
  rw [List.append_nil] at halone
  rw [number?, Gives.toOption_eq halone]
  exact hx s hs

/-- A string is read as if it stood alone. -/
theorem gives_string {t : List Char} (ht : Content t) (s : List Char) :
    Gives (Reader.string (t ++ '"' :: s)) (string? t) s := by
  obtain ⟨x?, hx⟩ := Reader.settles_stringTail ht
  have hread : ∀ s, Gives (Reader.string (t ++ '"' :: s)) (x?.map String.ofList) s :=
    fun s => (hx s).map String.ofList
  rw [string?, Gives.toOption_eq (hread [])]
  exact hread s

/-- The escaped content of a string stands for the string. -/
theorem string?_escaped (x : String) : string? (x.toList.flatMap escapeChar) = some x := by
  rw [string?, Reader.string, Reader.stringTail_chars]
  simp [Except.map, Except.toOption]

/-- Items that are read one by one are read as a list. -/
theorem gives_items {α : Type} {one : Reader α} {one? : Tree → Option α} {first : Bool}
    {Ts : List Tree} {u : List Char} (h : SpellsItems first Ts u)
    (hone : ∀ T ∈ Ts, ∀ t, T.Spells t → ∀ s, Stops s → Gives (one (t ++ s)) (one? T) s)
    {fuel : Nat} (hfuel : Ts.length < fuel) (s : List Char) :
    ∃ w, Blank w ∧
      Gives (Reader.items one fuel first (u ++ ']' :: s)) (Ts.mapM one?) (w ++ ']' :: s) := by
  induction Ts generalizing first u fuel with
  | nil =>
    obtain ⟨fuel, rfl⟩ := Nat.exists_eq_add_of_lt hfuel
    rw [SpellsItems] at h
    exact ⟨u, h, Reader.items_end (Reader.nextItem_end h first s) _⟩
  | cons T Ts ih =>
    cases fuel with
    | zero => exact absurd hfuel (Nat.not_lt_zero _)
    | succ fuel =>
      rw [SpellsItems] at h
      obtain ⟨w, w', t, rest, hw, hw', hT, hTs, rfl⟩ := h
      obtain ⟨c, t', rfl, htells⟩ := tells_of_spells hT
      obtain ⟨v, hv, hrest⟩ := ih hTs (fun T' hT' => hone T' (List.mem_cons_of_mem T hT'))
        (Nat.lt_of_succ_lt_succ hfuel)
      have hitem := hone T List.mem_cons_self _ hT _ (stops_of_spellsItems hTs s)
      have hnext := Reader.nextItem_append hw hw' first htells.space htells.close
        (t' ++ (rest ++ ']' :: s))
      rw [Reader.item_append, Reader.items_next hnext, List.mapM_cons]
      exact ⟨v, hv, hitem.bind fun x _ => hrest.bind fun xs _ => rfl⟩

/-- The first member is taken with its name, and then the others. -/
theorem members?_cons {σ : Type} (one? : σ → String → Tree → Option σ) (state : σ)
    (k : List Char) (T : Tree) (ms : List (List Char × Tree)) :
    members? one? state ((k, T) :: ms) = (string? k).bind fun name =>
      (one? state name T).bind fun state => members? one? state ms := by
  rw [members?, List.foldlM_cons]
  exact Option.bind_assoc _ _ _

/-- Members that are read one by one are taken one after the other. -/
theorem gives_members {σ : Type} {one : σ → String → Reader σ}
    {one? : σ → String → Tree → Option σ} {first : Bool} {ms : List (List Char × Tree)}
    {u : List Char} (h : SpellsMembers first ms u)
    (hone : ∀ state name, ∀ m ∈ ms, ∀ v v' t, Blank v → Blank v' → m.2.Spells t → ∀ s, Stops s →
      Gives (one state name (v ++ ':' :: (v' ++ (t ++ s)))) (one? state name m.2) s)
    {fuel : Nat} (hfuel : ms.length < fuel) (s : List Char) :
    ∃ w, Blank w ∧ ∀ state, Gives (Reader.members one fuel first state (u ++ '\x7d' :: s))
      (members? one? state ms) (w ++ '\x7d' :: s) := by
  induction ms generalizing first u fuel with
  | nil =>
    obtain ⟨fuel, rfl⟩ := Nat.exists_eq_add_of_lt hfuel
    rw [SpellsMembers] at h
    exact ⟨u, h, fun state => Reader.members_end (Reader.nextMember_end h first s) _ state⟩
  | cons m ms ih =>
    obtain ⟨k, T⟩ := m
    cases fuel with
    | zero => exact absurd hfuel (Nat.not_lt_zero _)
    | succ fuel =>
      rw [SpellsMembers] at h
      obtain ⟨w, w', v, v', t, rest, hw, hw', hv, hv', hk, hT, hms, rfl⟩ := h
      obtain ⟨y, hy, hrest⟩ := ih hms
        (fun state name m hm => hone state name m (List.mem_cons_of_mem _ hm))
        (Nat.lt_of_succ_lt_succ hfuel)
      refine ⟨y, hy, fun state => ?_⟩
      rw [member_append, Reader.members_next (Reader.nextMember_append hw hw' first _),
        members?_cons]
      exact (gives_string hk _).bind fun name _ =>
        (hone state name _ List.mem_cons_self v v' t hv hv' hT _
          (stops_of_spellsMembers hms s)).bind fun state' _ => hrest state'

/-! ### Values -/

/-- A list is read as its items are. -/
theorem gives_list {one : Reader Json} {one? : Tree → Option Json} {Ts : List Tree}
    {u : List Char} (h : SpellsItems true Ts u)
    (hone : ∀ T ∈ Ts, ∀ t, T.Spells t → ∀ s, Stops s → Gives (one (t ++ s)) (one? T) s)
    (s : List Char) :
    Gives (Reader.items one ((u ++ [']'] ++ s).length + 1) true (u ++ [']'] ++ s) >>= fun p =>
      Reader.closeList p.2 >>= fun s => .ok (Json.array p.1, s)) ((Ts.mapM one?).map .array) s := by
  have htext : u ++ [']'] ++ s = u ++ ']' :: s := by simp
  have hfuel : Ts.length < (u ++ ']' :: s).length + 1 := by
    have hlength := length_le_of_spellsItems h
    simp only [List.length_append]
    omega
  obtain ⟨w, hw, hitems⟩ := gives_items h hone hfuel s
  rw [htext, Option.map_eq_bind]
  refine hitems.bind fun xs _ => ?_
  rw [Reader.closeList_append hw]
  rfl

/-- The members between two braces are taken one after the other, up to the closing brace. -/
theorem gives_braces {σ : Type} {one : σ → String → Reader σ}
    {one? : σ → String → Tree → Option σ} {ms : List (List Char × Tree)} {u : List Char}
    (h : SpellsMembers true ms u)
    (hone : ∀ state name, ∀ m ∈ ms, ∀ v v' t, Blank v → Blank v' → m.2.Spells t → ∀ s, Stops s →
      Gives (one state name (v ++ ':' :: (v' ++ (t ++ s)))) (one? state name m.2) s)
    (state : σ) (s : List Char) :
    ∃ w, Blank w ∧ Gives (Reader.members one ((u ++ ['\x7d'] ++ s).length + 1) true state
      (u ++ ['\x7d'] ++ s)) (members? one? state ms) (w ++ '\x7d' :: s) := by
  have htext : u ++ ['\x7d'] ++ s = u ++ '\x7d' :: s := by simp
  have hfuel : ms.length < (u ++ '\x7d' :: s).length + 1 := by
    have hlength := length_le_of_spellsMembers h
    simp only [List.length_append]
    omega
  obtain ⟨w, hw, hmembers⟩ := gives_members h hone hfuel s
  rw [htext]
  exact ⟨w, hw, hmembers state⟩

/-- A member is read as its value is. -/
theorem gives_enter {one : Reader Json} (hblank : ∀ w, Blank w → ∀ s, one (w ++ s) = one s)
    {one? : Tree → Option Json} {T : Tree} {v v' t s : List Char} (hv : Blank v) (hv' : Blank v')
    (h : Gives (one (t ++ s)) (one? T) s) (found : Dictionary Json) (name : String) :
    Gives (Reader.enter one found name (v ++ ':' :: (v' ++ (t ++ s)))) (enter? one? found name T)
      s := by
  have hcolon : Reader.enter one found name (v ++ ':' :: (v' ++ (t ++ s))) =
      (one (t ++ s) >>= fun p => .ok (Dictionary.insert name p.1 found, p.2)) := by
    rw [Reader.enter, Reader.colon_append hv, ← hblank v' hv']
    rfl
  rw [hcolon, enter?, Option.map_eq_bind]
  exact h.bind fun x _ => rfl

/-- An object is read as the values of its members are. -/
theorem gives_object {one : Reader Json} (hblank : ∀ w, Blank w → ∀ s, one (w ++ s) = one s)
    {one? : Tree → Option Json} {ms : List (List Char × Tree)} {u : List Char}
    (h : SpellsMembers true ms u)
    (hone : ∀ m ∈ ms, ∀ t, m.2.Spells t → ∀ s, Stops s → Gives (one (t ++ s)) (one? m.2) s)
    (s : List Char) :
    Gives (Reader.members (Reader.enter one) ((u ++ ['\x7d'] ++ s).length + 1) true []
        (u ++ ['\x7d'] ++ s) >>= fun p => Reader.closeObject p.2 >>= fun s =>
          .ok (Json.object p.1, s))
      ((members? (enter? one?) [] ms).map .object) s := by
  obtain ⟨w, hw, hmembers⟩ := gives_braces h
    (fun found name m hm v v' t hv hv' ht s hs =>
      gives_enter hblank hv hv' (hone m hm t ht s hs) found name) [] s
  rw [Option.map_eq_bind]
  refine hmembers.bind fun ms _ => ?_
  rw [Reader.closeObject_append hw]
  rfl

/-- A value that is no list and no object is read however many brackets may be opened. -/
theorem gives_scalar {T : Tree} {t : List Char} (h : T.Spells t) {s : List Char} (hs : Stops s)
    (harray : ∀ Ts, T ≠ .array Ts) (hobject : ∀ ms, T ≠ .object ms) :
    Gives (Reader.scalar (t ++ s)) (T.valueWith? none) s := by
  cases T with
  | array Ts => exact absurd rfl (harray Ts)
  | object ms => exact absurd rfl (hobject ms)
  | null =>
    rw [Spells] at h
    subst h
    rfl
  | bool b =>
    rw [Spells] at h
    subst h
    cases b <;> rfl
  | string x =>
    rw [Spells] at h
    obtain ⟨hx, rfl⟩ := h
    rw [List.append_assoc, List.cons_append, List.singleton_append]
    exact (gives_string hx s).map Json.string
  | number n =>
    rw [Spells] at h
    obtain ⟨hn, rfl⟩ := h
    have hnumber := gives_number hn hs
    obtain ⟨c, t', rfl, hsign⟩ := hn.exists_cons
    obtain ⟨hword, hquote⟩ := (tells_number (c :: t') hsign).of_number
    rw [List.cons_append] at hnumber ⊢
    rw [Reader.scalar.eq_def]
    simp only [hword, if_neg hquote, if_pos hsign]
    exact hnumber.map Json.number

private theorem gives_valueWith_scalar (inner : Option (Reader Json))
    (inner? : Option (Tree → Option Json))
    {T : Tree} {t : List Char} (h : T.Spells t) {s : List Char} (hs : Stops s)
    (harray : ∀ Ts, T ≠ .array Ts) (hobject : ∀ ms, T ≠ .object ms) :
    Gives (Reader.valueWith inner (t ++ s)) (T.valueWith? inner?) s := by
  have hscalar := gives_scalar h hs harray hobject
  obtain ⟨c, t, rfl, htells⟩ := tells_of_spells h
  have hopens := htells.ne_open harray hobject
  have hinner : T.valueWith? inner? = T.valueWith? none := by
    cases T with
    | array Ts => exact absurd rfl (harray Ts)
    | object ms => exact absurd rfl (hobject ms)
    | _ => rfl
  rw [List.cons_append] at hscalar ⊢
  rw [Reader.valueWith_scalar htells.space hopens.1 hopens.2, hinner]
  exact hscalar

/-- What the reader makes of a text depends on its tree only. -/
theorem gives_value (depth : Nat) {T : Tree} {t : List Char} (h : T.Spells t) {s : List Char}
    (hs : Stops s) : Gives (Reader.value depth (t ++ s)) (T.value? depth) s := by
  induction depth generalizing T t s with
  | zero =>
    cases T with
    | array Ts =>
      rw [Spells] at h
      obtain ⟨u, -, rfl⟩ := h
      exact .error rfl
    | object ms =>
      rw [Spells] at h
      obtain ⟨u, -, rfl⟩ := h
      exact .error rfl
    | _ => exact gives_valueWith_scalar none none h hs nofun nofun
  | succ depth ih =>
    cases T with
    | array Ts =>
      rw [Spells] at h
      obtain ⟨u, hu, rfl⟩ := h
      exact gives_list hu (fun T _ t ht s hs => ih ht hs) s
    | object ms =>
      rw [Spells] at h
      obtain ⟨u, hu, rfl⟩ := h
      exact gives_object (fun w hw => Reader.value_append hw depth) hu
        (fun m _ t ht s hs => ih ht hs) s
    | _ => exact gives_valueWith_scalar _ _ h hs nofun nofun

end Tree

end Mishap.Json
