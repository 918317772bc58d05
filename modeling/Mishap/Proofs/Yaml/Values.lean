import Mishap.Proofs.Json.Spelling
import Mishap.Proofs.Yaml.Printable
import Mishap.Proofs.Yaml.Tokens

/-!
# Tokens of written values

The text of a value becomes its tokens (`nodeTokens`). A value is read up to a line that is no
deeper than its place, and the blocks that were opened for it are closed there; so the text of an
object with members becomes the tokens of the object (`tokens?_write`).
-/

namespace Mishap.Yaml

open Scalar Writer Lexer

/-! ### Values -/

mutual

/-- The tokens of a value. A list that is the value of a key has no marks around it. -/
def nodeTokens (place : Place) : Json → List Token
  | .null => [.scalar .plain "null".toList]
  | .bool b => [.scalar .plain (if b then "true".toList else "false".toList)]
  | .number n => [.scalar .plain (numberChars n)]
  | .string s => [textToken s.toList]
  | .array [] => [.flowListStart, .flowListEnd]
  | .array (x :: xs) =>
    if place = .key then .blockItem :: nodeTokens .mark x ++ itemsTokens xs
    else .blockListStart :: .blockItem :: nodeTokens .mark x ++ itemsTokens xs ++ [.blockEnd]
  | .object [] => [.flowObjectStart, .flowObjectEnd]
  | .object ((k, x) :: ms) =>
    .blockObjectStart :: .key :: textToken k.toList :: .value :: nodeTokens (placeAfter k) x ++
      membersTokens ms ++ [.blockEnd]

/-- The tokens of items. -/
def itemsTokens : List Json → List Token
  | [] => []
  | x :: xs => .blockItem :: nodeTokens .mark x ++ itemsTokens xs

/-- The tokens of members. -/
def membersTokens : List (String × Json) → List Token
  | [] => []
  | (k, x) :: ms =>
    .key :: textToken k.toList :: .value :: nodeTokens (placeAfter k) x ++ membersTokens ms

end

/-- The tokens of a list are those of its items, in a block of their own unless they stand behind a
key. -/
theorem nodeTokens_array (place : Place) {xs : List Json} (h : xs ≠ []) :
    nodeTokens place (.array xs) =
      if place = .key then itemsTokens xs
      else .blockListStart :: itemsTokens xs ++ [.blockEnd] := by
  obtain ⟨x, xs, rfl⟩ := List.exists_cons_of_ne_nil h
  rw [nodeTokens, itemsTokens]
  simp

/-- The tokens of an object are those of its members, in a block of their own. -/
theorem nodeTokens_object (place : Place) {ms : List (String × Json)} (h : ms ≠ []) :
    nodeTokens place (.object ms) = .blockObjectStart :: membersTokens ms ++ [.blockEnd] := by
  obtain ⟨m, ms, rfl⟩ := List.exists_cons_of_ne_nil h
  rw [nodeTokens, membersTokens]
  simp

/-! ### Empty lists and objects -/

section

variable {m : Mark} {level c : Nat} {t : List Char} (ts : List Token) (allowed : Bool)
  (is : List Int)

/-- The brackets of an empty list or object, with their tokens. -/
private def pairs : List (Char × Char × Token × Token) :=
  [('[', ']', .flowListStart, .flowListEnd),
    ('\x7b', '\x7d', .flowObjectStart, .flowObjectEnd)]

private theorem leads_pair {o p : Char} {t₁ t₂ : Token} (h : (o, p, t₁, t₂) ∈ pairs)
    (hm : level < m.column) (ht : Fresh t) :
    ∃ m', m'.column = c ∧
      Leads (idle (o :: p :: '\n' :: (blanks c ++ t)) m ts allowed level is)
        (idle t m' (ts ++ [t₁, t₂]) true level is) := by
  have hfresh : ∀ u, Fresh (o :: u) ∧ Fresh (p :: u) := by
    simp only [pairs, List.mem_cons, Prod.mk.injEq, List.not_mem_nil, or_false] at h
    rcases h with ⟨rfl, rfl, -⟩ | ⟨rfl, rfl, -⟩ <;>
      exact fun u => ⟨fresh_cons (by decide), fresh_cons (by decide)⟩
  have hopen : Leads (idle (o :: p :: '\n' :: (blanks c ++ t)) m ts allowed level is)
      ⟨p :: '\n' :: (blanks c ++ t), m.next o, ts ++ [t₁], none, [remembered allowed level m ts],
        true, level, is⟩ := by
    refine .of_token (settle?_fresh (hfresh _).1 (by omega)) rfl (fun fuel _ => ?_)
      (Nat.lt_succ_self _)
    simp only [pairs, List.mem_cons, Prod.mk.injEq, List.not_mem_nil, or_false] at h
    rcases h with ⟨rfl, rfl, rfl, rfl⟩ | ⟨rfl, rfl, rfl, rfl⟩ <;> cases allowed <;>
      simp [token?, atMarker_of_ne, opening?, saveKey?, dropKey?, inFlow, remembered, emit, skip,
        moveTo, Mark.past_cons]
  have hstill : stillKey? (m.next o) (remembered allowed level m ts) =
      some (remembered allowed level m ts) := by
    have hsize : o.utf8Size ≤ 4 := o.utf8Size_le_four
    have hindex : ¬ m.index + 1024 < m.index + o.utf8Size := by omega
    cases allowed <;> simp [stillKey?, remembered, Mark.next, hindex]
  have hsettle : Lexer.settle? ⟨p :: '\n' :: (blanks c ++ t), m.next o, ts ++ [t₁], none,
      [remembered allowed level m ts], true, level, is⟩ =
        some ⟨p :: '\n' :: (blanks c ++ t), m.next o, ts ++ [t₁], none,
          [remembered allowed level m ts], true, level, is⟩ := by
    simp [settle?, toToken, inFlow, skipGap_of_fresh (hfresh _).2, forgetStale?, hstill,
      closeBlocks]
  have hclose : Leads
      ⟨p :: '\n' :: (blanks c ++ t), m.next o, ts ++ [t₁], none, [remembered allowed level m ts],
        true, level, is⟩
      ⟨'\n' :: (blanks c ++ t), (m.next o).next p, ts ++ [t₁, t₂], remembered allowed level m ts,
        [], false, level, is⟩ := by
    refine .of_token hsettle rfl (fun fuel _ => ?_) (Nat.lt_succ_self _)
    simp only [pairs, List.mem_cons, Prod.mk.injEq, List.not_mem_nil, or_false] at h
    rcases h with ⟨rfl, rfl, rfl, rfl⟩ | ⟨rfl, rfl, rfl, rfl⟩ <;>
      simp [token?, atMarker_of_ne, closing?, dropKey?, emit, skip, moveTo, Mark.past_cons]
  exact (hopen.trans hclose).line hm (Nat.le_refl m.line) ht

end

/-! ### Values in their places -/

/-- Where the text of a value begins: behind a key and its colon, or behind a mark that lets a key
begin on its line. -/
inductive Begins (level : Nat) (m : Mark) : Place → Bool → Prop
  | key (behind : level < m.column) : Begins level m .key false
  | mark (behind : m.column = level + 1) : Begins level m .mark true

/-- The text of a value, up to a line that is no deeper than its place, becomes its tokens. -/
def Lexes (v : Json) : Prop :=
  ∀ ⦃place : Place⦄ ⦃level c : Nat⦄ ⦃m : Mark⦄ ⦃allowed : Bool⦄ (ts : List Token) (is : List Int)
    ⦃t : List Char⦄, Begins level m place allowed → c ≤ level → Fresh t →
    ∃ m', m'.column = c ∧
      Leads (idle (nodeChars place level v ++ (blanks c ++ t)) m ts allowed level is)
        (idle t m' (ts ++ nodeTokens place v) true level is)

section

variable {place : Place} {level c : Nat} {m : Mark} {allowed : Bool} {i : Int} {t : List Char}
  (ts : List Token) (is : List Int)

private theorem Begins.spec (h : Begins level m place allowed) :
    place.gap = [' '] ∧ level < (m.next ' ').column ∧ inner place level = level + 2 := by
  cases h with
  | key behind => exact ⟨rfl, Nat.lt_succ_of_lt behind, rfl⟩
  | mark behind => exact ⟨rfl, by simp only [Mark.next, behind]; omega, rfl⟩

private theorem leads_word {w : List Char} (hw : Unquoted w) (h : Begins level m place allowed)
    (hc : c ≤ level) (ht : Fresh t) :
    ∃ m', m'.column = c ∧
      Leads (idle (place.gap ++ w ++ ['\n'] ++ (blanks c ++ t)) m ts allowed level is)
        (idle t m' (ts ++ [.scalar .plain w]) true level is) := by
  obtain ⟨hgap, hcolumn, -⟩ := h.spec
  obtain ⟨m', hm', hleads⟩ := leads_plainLine hw hcolumn hc ht
  have hwritten : place.gap ++ w ++ ['\n'] ++ (blanks c ++ t) =
      ' ' :: (w ++ '\n' :: (blanks c ++ t)) := by
    simp [hgap]
  rw [hwritten]
  exact ⟨m', hm', leads_blank.trans hleads⟩

private theorem atGap_nodeChars {place : Place} (hplace : place ≠ .top) (level : Nat) (v : Json)
    (r : List Char) : atGap (nodeChars place level v ++ r) = true := by
  cases place with
  | top => exact absurd rfl hplace
  | key =>
    cases v with
    | bool b => cases b <;> simp [nodeChars, Place.gap, atGap, isSpace]
    | array xs => cases xs <;> simp [nodeChars, Place.gap, atGap, isSpace, isEnd]
    | object ms => cases ms <;> simp [nodeChars, Place.gap, atGap, isSpace, isEnd]
    | _ => simp [nodeChars, Place.gap, atGap, isSpace]
  | mark =>
    cases v with
    | bool b => cases b <;> simp [nodeChars, Place.gap, atGap, isSpace]
    | array xs => cases xs <;> simp [nodeChars, Place.gap, atGap, isSpace]
    | object ms => cases ms <;> simp [nodeChars, Place.gap, atGap, isSpace]
    | _ => simp [nodeChars, Place.gap, atGap, isSpace]

private theorem fresh_keyChars (level : Nat) (k : String) (r : List Char) :
    Fresh (keyChars level k ++ r) := by
  rw [keyChars]
  split
  · have hsuits := suits_styleOf k.toList
    rw [scalarChars]
    cases hstyle : styleOf k.toList <;> rw [hstyle] at hsuits
    case plain =>
      obtain ⟨c, w, hw⟩ := List.exists_cons_of_ne_nil hsuits.1.ne_nil
      obtain ⟨hprintable, hbreak⟩ := hsuits.1.printable c (hw ▸ List.mem_cons_self)
      have hspace : c ≠ ' ' := fun heq => hsuits.1.head (hw ▸ congrArg some heq)
      have hhash : c ≠ '#' := fun heq => hsuits.1.head?_ne (hw ▸ congrArg some heq)
      dsimp only
      rw [hw]
      exact fresh_of_isPrintable hprintable hbreak hspace hhash
    all_goals exact fresh_cons (by decide)
  · exact fresh_cons (by decide)

@[simp] private theorem opened_self (t : Token) : opened level level t = [] :=
  if_neg (Int.lt_irrefl _)

@[simp] private theorem around_self (is : List Int) : around level level is = is :=
  if_neg (Int.lt_irrefl _)

private theorem leads_item {x : Json} (hx : Lexes x) (hm : m.column = level) (hi : i ≤ level)
    (hc : c ≤ level) (ht : Fresh t) :
    ∃ m', m'.column = c ∧
      Leads (idle ('-' :: (nodeChars .mark level x ++ (blanks c ++ t))) m ts true i is)
        (idle t m' (ts ++ opened i level .blockListStart ++ .blockItem :: nodeTokens .mark x) true
          level (around i level is)) := by
  subst hm
  have hmark : Place.mark ≠ .top := by decide
  have hgap := atGap_nodeChars hmark m.column x (blanks c ++ t)
  obtain ⟨m', hm', hitem⟩ := hx (ts ++ opened i m.column .blockListStart ++ [.blockItem])
    (around i m.column is) (Begins.mark (m := m.next '-') rfl) hc ht
  have htokens : ts ++ opened i m.column .blockListStart ++ .blockItem :: nodeTokens .mark x =
      ts ++ opened i m.column .blockListStart ++ [.blockItem] ++ nodeTokens .mark x := by
    simp
  rw [htokens]
  exact ⟨m', hm', (leads_dash hgap hi).trans hitem⟩

private theorem leads_items {x : Json} {xs : List Json} (hx : Lexes x) (h : ∀ y ∈ xs, Lexes y)
    (hm : m.column = level) (hi : i ≤ level) (hc : c ≤ level) (ht : Fresh t) :
    ∃ m', m'.column = c ∧
      Leads
        (idle ('-' :: (nodeChars .mark level x ++ (itemsChars level xs ++ (blanks c ++ t)))) m ts
          true i is)
        (idle t m' (ts ++ opened i level .blockListStart ++ itemsTokens (x :: xs)) true level
          (around i level is)) := by
  induction xs generalizing x m ts i is with
  | nil => simpa [itemsChars, itemsTokens] using leads_item ts is hx hm hi hc ht
  | cons y ys ih =>
    let rest := nodeChars .mark level y ++ (itemsChars level ys ++ (blanks c ++ t))
    have hdash : Fresh ('-' :: rest) := fresh_cons (by decide)
    obtain ⟨m₁, hm₁, hfirst⟩ := leads_item ts is hx hm hi (Nat.le_refl level) hdash
    obtain ⟨m', hm', hrest⟩ := ih
      (ts ++ opened i level .blockListStart ++ .blockItem :: nodeTokens .mark x)
      (around i level is) (h y List.mem_cons_self) (fun z hz => h z (List.mem_cons_of_mem y hz)) hm₁
      (Int.le_refl level)
    refine ⟨m', hm', ?_⟩
    have hleads := hfirst.trans hrest
    simpa [itemsChars, itemsTokens, rest] using hleads

private theorem leads_member {k : String} {x : Json} (hx : Lexes x) (hm : m.column = level)
    (hi : i ≤ level) (hc : c ≤ level) (ht : Fresh t) :
    ∃ m', m'.column = c ∧
      Leads (idle (keyChars level k ++ (nodeChars (placeAfter k) level x ++ (blanks c ++ t))) m ts
          true i is)
        (idle t m' (ts ++ opened i level .blockObjectStart ++
            .key :: textToken k.toList :: .value :: nodeTokens (placeAfter k) x) true
          level (around i level is)) := by
  have hplace : placeAfter k ≠ .top := by
    rw [placeAfter]
    split <;> decide
  have hgap := atGap_nodeChars hplace level x (blanks c ++ t)
  obtain ⟨m₁, hm₁, hkey⟩ := leads_key k hm hi hgap
  have hbegins : Begins level m₁ (placeAfter k) (!isSimpleKey k) := by
    rw [placeAfter]
    cases hk : isSimpleKey k with
    | true =>
      rw [hk, if_pos rfl] at hm₁
      exact .key hm₁
    | false =>
      rw [hk, if_neg Bool.false_ne_true] at hm₁
      exact .mark hm₁
  obtain ⟨m', hm', hvalue⟩ := hx
    (ts ++ opened i level .blockObjectStart ++ [.key, textToken k.toList, .value])
    (around i level is) hbegins hc ht
  refine ⟨m', hm', ?_⟩
  have hleads := hkey.trans hvalue
  simpa using hleads

private theorem leads_members {k : String} {x : Json} {ms : List (String × Json)} (hx : Lexes x)
    (h : ∀ n ∈ ms, Lexes n.2) (hm : m.column = level) (hi : i ≤ level) (hc : c ≤ level)
    (ht : Fresh t) :
    ∃ m', m'.column = c ∧
      Leads (idle (keyChars level k ++ (nodeChars (placeAfter k) level x ++
          (membersChars level ms ++ (blanks c ++ t)))) m ts true i is)
        (idle t m' (ts ++ opened i level .blockObjectStart ++ membersTokens ((k, x) :: ms)) true
          level (around i level is)) := by
  induction ms generalizing k x m ts i is with
  | nil => simpa [membersChars, membersTokens] using leads_member ts is hx hm hi hc ht
  | cons n ms ih =>
    obtain ⟨k', y⟩ := n
    let rest := keyChars level k' ++ (nodeChars (placeAfter k') level y ++
      (membersChars level ms ++ (blanks c ++ t)))
    have hkey : Fresh rest := fresh_keyChars level k' _
    obtain ⟨m₁, hm₁, hfirst⟩ := leads_member ts is hx hm hi (Nat.le_refl level) hkey
    obtain ⟨m', hm', hrest⟩ := ih
      (ts ++ opened i level .blockObjectStart ++
        .key :: textToken k.toList :: .value :: nodeTokens (placeAfter k) x)
      (around i level is) (h (k', y) List.mem_cons_self)
      (fun z hz => h z (List.mem_cons_of_mem _ hz)) hm₁ (Int.le_refl level)
    refine ⟨m', hm', ?_⟩
    have hleads := hfirst.trans hrest
    simpa [membersChars, membersTokens, rest] using hleads

/-- What stands before a block that lies deeper than its place. -/
private def wayDown (place : Place) (level : Nat) : List Char :=
  match place with
  | .key => '\n' :: blanks (level + 2)
  | p => p.gap

private theorem nodeChars_object (place : Place) (level : Nat) (k : String) (x : Json)
    (ms : List (String × Json)) :
    nodeChars place level (.object ((k, x) :: ms)) =
      wayDown place level ++ keyChars (inner place level) k ++
        nodeChars (placeAfter k) (inner place level) x ++ membersChars (inner place level) ms := by
  cases place <;> rfl

private theorem leads_wayDown (h : Begins level m place allowed) {s : List Char} (hs : Fresh s) :
    ∃ m', m'.column = level + 2 ∧
      Leads (idle (wayDown place level ++ s) m ts allowed level is)
        (idle s m' ts true level is) := by
  cases h with
  | key behind =>
    refine ⟨(m.nextLine '\n').past (blanks (level + 2)), by simp [Mark.nextLine, blanks], ?_⟩
    exact leads_line hs (by simp) (level + 2)
  | mark behind => exact ⟨m.next ' ', congrArg Nat.succ behind, leads_blank⟩

private theorem Lexer.Leads.block {l : Lexer} {us : List Token} {m' : Mark} (hm' : m'.column = c)
    (h : Leads l (idle t m' us true (level + 2 : Nat) (around level (level + 2) is)))
    (hc : c ≤ level) (ht : Fresh t) : Leads l (idle t m' (us ++ [.blockEnd]) true level is) := by
  have haround : around (level : Int) (level + 2) is = (level : Int) :: is := if_pos (by omega)
  rw [haround] at h
  exact h.trans (leads_close ht (by omega))

private theorem lexes_array {xs : List Json} (h : ∀ x ∈ xs, Lexes x) : Lexes (.array xs) := by
  intro place level c m allowed ts is t hb hc ht
  obtain ⟨hgap, hcolumn, hinner⟩ := hb.spec
  cases xs with
  | nil =>
    obtain ⟨m', hm', hpair⟩ := leads_pair ts allowed is (List.mem_cons_self : _ ∈ pairs)
      hcolumn ht
    refine ⟨m', hm', ?_⟩
    have hleads := leads_blank.trans hpair
    simpa [nodeChars, nodeTokens, hgap] using hleads
  | cons x xs =>
    have hx := h x List.mem_cons_self
    have hxs : ∀ y ∈ xs, Lexes y := fun y hy => h y (List.mem_cons_of_mem x hy)
    rw [nodeTokens_array place (List.cons_ne_nil x xs)]
    cases hb with
    | key behind =>
      -- The dashes stand right below the key, and no block is opened for them.
      have hbelow : ((m.nextLine '\n').past (blanks level)).column = level := by
        simp [Mark.nextLine, blanks]
      obtain ⟨m', hm', hitems⟩ := leads_items ts is hx hxs hbelow (Int.le_refl level) hc ht
      have hline : ∀ r, Leads (idle ('\n' :: (blanks level ++ '-' :: r)) m ts false level is)
          (idle ('-' :: r) ((m.nextLine '\n').past (blanks level)) ts true level is) := fun r =>
        leads_line (fresh_cons (by decide)) (by simp) level
      refine ⟨m', hm', ?_⟩
      have hleads := (hline _).trans hitems
      simpa [nodeChars] using hleads
    | mark behind =>
      have hbehind : (m.next ' ').column = level + 2 := congrArg Nat.succ behind
      obtain ⟨m', hm', hitems⟩ := leads_items ts is hx hxs hbehind (i := level) (by omega)
        (show c ≤ level + 2 by omega) ht
      refine ⟨m', hm', ?_⟩
      have hleads := (leads_blank.trans hitems).block is hm' hc ht
      have hopened : opened (level : Int) (level + 2) Token.blockListStart = [.blockListStart] :=
        if_pos (by omega)
      simpa [nodeChars, hinner, Place.gap, hopened] using hleads

private theorem lexes_object {ms : List (String × Json)} (h : ∀ n ∈ ms, Lexes n.2) :
    Lexes (.object ms) := by
  intro place level c m allowed ts is t hb hc ht
  obtain ⟨hgap, hcolumn, hinner⟩ := hb.spec
  cases ms with
  | nil =>
    obtain ⟨m', hm', hpair⟩ := leads_pair ts allowed is
      (List.mem_cons_of_mem _ List.mem_cons_self : _ ∈ pairs) hcolumn ht
    refine ⟨m', hm', ?_⟩
    have hleads := leads_blank.trans hpair
    simpa [nodeChars, nodeTokens, hgap] using hleads
  | cons n ms =>
    obtain ⟨k, x⟩ := n
    have hx := h (k, x) List.mem_cons_self
    have hms : ∀ n ∈ ms, Lexes n.2 := fun n hn => h n (List.mem_cons_of_mem _ hn)
    obtain ⟨m₁, hm₁, hdown⟩ := leads_wayDown ts is hb (fresh_keyChars (level + 2) k
      (nodeChars (placeAfter k) (level + 2) x ++ (membersChars (level + 2) ms ++ (blanks c ++ t))))
    obtain ⟨m', hm', hmembers⟩ := leads_members ts is hx hms hm₁ (i := level) (by omega)
      (show c ≤ level + 2 by omega) ht
    refine ⟨m', hm', ?_⟩
    have hleads := (hdown.trans hmembers).block is hm' hc ht
    have hopened : opened (level : Int) (level + 2) Token.blockObjectStart = [.blockObjectStart] :=
      if_pos (by omega)
    rw [nodeTokens_object place (List.cons_ne_nil (k, x) ms), nodeChars_object, hinner]
    simpa [hopened] using hleads

/-- The text of a value whose numbers are integers becomes its tokens, wherever it stands. -/
theorem lexes_of_integral {v : Json} (h : v.Integral) : Lexes v := by
  have hword : ∀ w ∈ ["null".toList, "true".toList, "false".toList], Unquoted w := by
    intro w hw
    simp only [List.mem_cons, List.not_mem_nil, or_false] at hw
    rcases hw with rfl | rfl | rfl <;> exact unquoted_of_allowsPlain (by decide) (by decide)
  induction h with
  | null =>
    intro place level c m allowed ts is t hb hc ht
    have hleads := leads_word ts is (hword _ List.mem_cons_self) hb hc ht
    simpa [nodeChars, nodeTokens] using hleads
  | bool b =>
    intro place level c m allowed ts is t hb hc ht
    have hleads := leads_word ts is (hword (if b then "true".toList else "false".toList)
      (by cases b <;> simp)) hb hc ht
    cases b <;> simpa [nodeChars, nodeTokens] using hleads
  | @int i range =>
    intro place level c m allowed ts is t hb hc ht
    have hleads := leads_word ts is (unquoted_integer i) hb hc ht
    simpa [nodeChars, nodeTokens, numberChars] using hleads
  | string s =>
    intro place level c m allowed ts is t hb hc ht
    obtain ⟨hgap, hcolumn, hinner⟩ := hb.spec
    obtain ⟨m', hm', htext⟩ := leads_textLine s.toList hcolumn hc ht
    refine ⟨m', hm', ?_⟩
    have hplace : place ≠ .top := by cases hb <;> decide
    have hleads := leads_blank.trans htext
    simpa [nodeChars, nodeTokens, hgap, scalarIndent, hinner, hplace] using hleads
  | array items ih => exact lexes_array ih
  | object members ih => exact lexes_object ih

end

/-! ### Texts of objects -/

private theorem run?_nil {m : Mark} {ts : List Token} (hm : m.column = 0) {fuel : Nat}
    (hfuel : 0 < fuel) : run? fuel (idle [] m ts true 0 [-1]) = some (ts ++ [.blockEnd]) := by
  obtain ⟨fuel, rfl⟩ : ∃ f, fuel = f + 1 := Nat.exists_eq_add_one.mpr hfuel
  rw [run?_succ, settle?_fresh fresh_nil (by omega)]
  simp [proceed?, finish?, endBlocks?, closeBlocks, closeBlocks.go, inFlow, emit, dropKey?]

/-- The text of an object becomes the tokens of the object. -/
theorem tokens?_write {n : String × Json} {ms : List (String × Json)}
    (h : Json.Integral (.object (n :: ms))) :
    tokens? (write (.object (n :: ms))).toList = some (nodeTokens .top (.object (n :: ms))) := by
  have hprintable := printable_nodeChars h .top 0
  have hreadable : (nodeChars .top 0 (.object (n :: ms))).all isReadable = true :=
    List.all_eq_true.mpr fun c hc => isReadable_of_isPrintable (hprintable c hc)
  obtain ⟨k, x⟩ := n
  have hmembers : ∀ n ∈ (k, x) :: ms, Lexes n.2 := by
    cases h with
    | object members => exact fun n hn => lexes_of_integral (members n hn)
  obtain ⟨hx, hms⟩ := List.forall_mem_cons.mp hmembers
  obtain ⟨m', hm', hleads⟩ := leads_members (m := ⟨0, 0, 0⟩) [] [] hx hms rfl (i := -1) (by decide)
    (Nat.le_refl 0) fresh_nil
  have hstart : start (nodeChars .top 0 (.object ((k, x) :: ms))) =
      idle (keyChars 0 k ++ (nodeChars (placeAfter k) 0 x ++
        (membersChars 0 ms ++ (blanks 0 ++ [])))) ⟨0, 0, 0⟩ [] true (-1) [] := by
    rw [nodeChars_object]
    simp [start, wayDown, Place.gap, Writer.inner, blanks]
  obtain ⟨fuel, hfuel, hrun⟩ := hleads ((nodeChars .top 0 (.object ((k, x) :: ms))).length + 2) (by
    rw [← hstart]
    exact Nat.lt_succ_of_lt (Nat.lt_succ_self _))
  rw [write, String.toList_ofList, tokens?, plainEnds_of_printable hprintable, hreadable,
    if_pos rfl, hstart, hrun]
  have haround : around (-1) 0 [] = [-1] := rfl
  have hopened : opened (-1) 0 Token.blockObjectStart = [.blockObjectStart] := rfl
  rw [haround, hopened, nodeTokens_object .top (List.cons_ne_nil _ _)]
  exact run?_nil hm' (Nat.zero_lt_of_lt hfuel)

end Mishap.Yaml
