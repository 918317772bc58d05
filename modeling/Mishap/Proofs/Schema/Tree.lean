import Mishap.Proofs.Json.Skipping
import Mishap.Proofs.Schema.Reading

/-!
# Shapes read from trees

What a shape is read as from a tree of tokens, without regard to faults and their order. Reading a
text as a shape gives what is read from its tree, and is refused where nothing is
(`FromText.gives_read`, `fromText_of_spelled`).
-/

namespace Mishap.Schema

open Json (Fault Tree Gives)
open Json.Tree (Spells SpellsItems SpellsMembers string? number? members? enter? value?)
open Json.Reader (Blank Stops comma)

namespace FromTree

/-- A text that is checked. -/
def checkedText? (check : String → Except Mismatch Json) : Tree → Option Json
  | .string x => (string? x).bind fun x => (check x).toOption
  | _ => none

/-- A natural number. -/
def natural? (w : Width) : Tree → Option Json
  | .number n => (number? n).bind fun n => (naturalOf w n).toOption
  | _ => none

/-- A boolean. -/
def flag? : Tree → Option Json
  | .bool b => some (.bool b)
  | _ => none

/-- One of the names of a choice, alone or as the only name of an object that holds `null`. -/
def choice? (nested : Bool) (c : Choice) : Tree → Option Json
  | .string x => (string? x).bind fun x => (choiceOf c x).toOption
  | .object [(x, .null)] =>
    if nested then (string? x).bind fun x => (choiceOf c x).toOption else none
  | _ => none

/-- One member of a record: an unknown one adds nothing, a known one may stand only once. -/
def member? (one : Shape → Tree → Option Json) (r : Record) (found : Dictionary Json)
    (name : String) (T : Tree) : Option (Dictionary Json) :=
  match r.field? name with
  | none => some found
  | some f =>
    if (Dictionary.get? name found).isSome then none else enter? (one f.shape) found name T

/-- The fields of a record that is written as a list, as far as the list goes. -/
def fieldItems? (one : Shape → Tree → Option Json) :
    List RecordField → List Tree → Option (Dictionary Json)
  | [], _ => some []
  | f :: fs, [] => if f.default?.isSome then fieldItems? one fs [] else none
  | f :: fs, T :: Ts => (one f.shape T).bind fun v =>
    (fieldItems? one fs Ts).map (Dictionary.insert f.name v)

/-- The record of what was found for its fields. -/
def assembled? (r : Record) (found : Dictionary Json) : Option Json :=
  (Record.assemble r.fields found).toOption.map .object

/-- A record whose parts are read by `inner`. -/
def record? (inner : Option (Shape → Tree → Option Json)) (r : Record) : Tree → Option Json
  | .array Ts => inner.bind fun one =>
    if Ts.length ≤ r.fields.length then (fieldItems? one r.fields Ts).bind (assembled? r) else none
  | .object ms => inner.bind fun one => (members? (member? one r) [] ms).bind (assembled? r)
  | _ => none

/-- Reads a shape whose nested parts are read by `inner`. -/
def readWith? (depth : Nat) (inner : Option (Shape → Tree → Option Json)) :
    Shape → Tree → Option Json
  | .text, T => checkedText? (fun x => .ok (.string x)) T
  | .natural w, T => natural? w T
  | .flag, T => flag? T
  | .anything, T => value? depth T
  | .span, T => checkedText? spanOf T
  | .instant, T => checkedText? instantOf T
  | .choice c, T => choice? inner.isSome c T
  | .record r, T => record? inner r T
  | .optional _, .null => some .null
  | .optional of, T => readWith? depth inner of T
  | .list of, .array Ts => inner.bind fun one => (Ts.mapM (one of)).map .array
  | .list _, _ => none
  | .dictionary of, .object ms =>
    inner.bind fun one => (members? (enter? (one of)) [] ms).map .object
  | .dictionary _, _ => none

/-- Reads a shape with at most `depth` brackets inside one another. -/
def read? : Nat → Shape → Tree → Option Json
  | 0 => readWith? 0 none
  | depth + 1 => readWith? (depth + 1) (some (read? depth))

end FromTree

namespace FromText

open FromTree

/-! ### Refusals -/

private theorem wrongKind_error {α : Type} (wanted : String) (s : List Char) :
    ∃ f, wrongKind (α := α) wanted s = .error f := by
  unfold wrongKind
  split
  · exact ⟨_, rfl⟩
  · exact ⟨_, rfl⟩
  · cases Json.Reader.scalar s with
    | error f => exact ⟨f, rfl⟩
    | ok p => exact ⟨_, rfl⟩

private theorem mismatchInObject_error {α : Type} (m : Mismatch) (s : List Char) :
    ∃ f, mismatchInObject (α := α) m s = .error f := by
  unfold mismatchInObject
  split <;> exact ⟨_, rfl⟩

private theorem mismatchInList_error {α : Type} (m : Mismatch) (s : List Char) :
    ∃ f, mismatchInList (α := α) m s = .error f := by
  unfold mismatchInList
  split <;> exact ⟨_, rfl⟩

private theorem gives_checked (r : Except Mismatch Json) (s : List Char) :
    Gives (checked r s) r.toOption s := by
  cases r with
  | ok v => rfl
  | error m => exact ⟨_, rfl⟩

/-! ### Scalars -/

private theorem token_of_tree {T : Tree} {t : List Char} (h : T.Spells t) (s : List Char) :
    token (t ++ s) = .ok (t ++ s) := by
  obtain ⟨c, t, rfl, htells⟩ := Json.Tree.tells_of_spells h
  exact token_append_cons .nil htells.space (t ++ s)

private theorem gives_checkedText (wanted : String) (check : String → Except Mismatch Json)
    {T : Tree}
    {t : List Char} (h : T.Spells t) (s : List Char) :
    Gives (checkedText wanted check (t ++ s)) (checkedText? check T) s := by
  have htoken := token_of_tree h s
  rw [checkedText, htoken]
  cases T with
  | string x =>
    rw [Spells] at h
    obtain ⟨hx, rfl⟩ := h
    have htext : '"' :: x ++ ['"'] ++ s = '"' :: (x ++ '"' :: s) := by simp
    rw [htext]
    exact (Json.Tree.gives_string hx s).bind fun x _ => gives_checked (check x) s
  | _ =>
    obtain ⟨c, t, rfl, htells⟩ := Json.Tree.tells_of_spells h
    simp only [bind, Except.bind]
    split
    · next heq => rcases htells.string (List.cons.inj heq).1 with ⟨_, ⟨⟩⟩
    · exact wrongKind_error wanted _

private theorem gives_natural (w : Width) {T : Tree} {t : List Char} (h : T.Spells t)
    {s : List Char}
    (hs : Stops s) : Gives (natural w (t ++ s)) (natural? w T) s := by
  have htoken := token_of_tree h s
  have hread : ∀ c t, token (c :: t) = .ok (c :: t) → natural w (c :: t) =
      if c = '-' ∨ Text.isDigit c = true then
        Json.Reader.number (c :: t) >>= fun p => checked (naturalOf w p.1) p.2
      else wrongKind w.wanted (c :: t) := by
    intro c t htoken
    rw [natural, htoken]
    rfl
  cases T with
  | number n =>
    rw [Spells] at h
    obtain ⟨hn, rfl⟩ := h
    have hnumber := Json.Tree.gives_number hn hs
    obtain ⟨c, t, rfl, hc⟩ := hn.exists_cons
    rw [List.cons_append] at hnumber htoken ⊢
    rw [hread c _ htoken, if_pos hc]
    exact hnumber.bind fun n _ => gives_checked (naturalOf w n) s
  | _ =>
    obtain ⟨c, t, rfl, htells⟩ := Json.Tree.tells_of_spells h
    have hc : ¬ (c = '-' ∨ Text.isDigit c = true) := by
      intro hc
      rcases htells.number hc with ⟨_, ⟨⟩⟩
    rw [List.cons_append] at htoken ⊢
    rw [hread c _ htoken, if_neg hc]
    exact wrongKind_error _ _

private theorem gives_flag {T : Tree} {t : List Char} (h : T.Spells t) (s : List Char) :
    Gives (flag (t ++ s)) (flag? T) s := by
  have htoken := token_of_tree h s
  rw [flag, htoken]
  cases T with
  | bool b =>
    rw [Spells] at h
    subst h
    cases b <;> rfl
  | _ =>
    obtain ⟨c, t, rfl, htells⟩ := Json.Tree.tells_of_spells h
    simp only [bind, Except.bind]
    split
    · next heq => rcases htells.bool (.inl (List.cons.inj heq).1) with ⟨_, ⟨⟩⟩
    · next heq => rcases htells.bool (.inr (List.cons.inj heq).1) with ⟨_, ⟨⟩⟩
    · exact wrongKind_error _ _

/-- Behind the name of a choice only `null` is taken. -/
theorem unit_error {T : Tree} {t : List Char} (h : T.Spells t) (hT : T ≠ .null) (s : List Char) :
    ∃ f, unit (t ++ s) = .error f := by
  obtain ⟨c, t, rfl, htells⟩ := Json.Tree.tells_of_spells h
  rw [List.cons_append]
  unfold unit
  split
  · next heq => exact absurd (htells.null (List.cons.inj heq).1) hT
  · exact wrongKind_error _ _

/-- Behind the name of a choice there may only be `null` and the end of the object. -/
theorem closeChoice_of_spells {T : Tree} {ms : List (List Char × Tree)} {t u : List Char}
    (hT : T.Spells t) (hms : SpellsMembers false ms u) (s : List Char) :
    (T = .null ∧ ms = [] → (unit (t ++ (u ++ '\x7d' :: s)) >>= closeChoice) = .ok s) ∧
      (¬ (T = .null ∧ ms = []) →
        ∃ f, (unit (t ++ (u ++ '\x7d' :: s)) >>= closeChoice) = .error f) := by
  by_cases hnull : T = .null
  · subst hnull
    rw [Spells] at hT
    subst hT
    have hunit : (unit ("null".toList ++ (u ++ '\x7d' :: s)) >>= closeChoice) =
        closeChoice (u ++ '\x7d' :: s) := rfl
    rw [hunit, closeChoice]
    cases ms with
    | nil =>
      rw [SpellsMembers] at hms
      rw [Json.Reader.skipSpace_append_cons hms rfl]
      exact ⟨fun _ => rfl, fun h => absurd ⟨rfl, rfl⟩ h⟩
    | cons m ms =>
      obtain ⟨k, T⟩ := m
      rw [SpellsMembers] at hms
      obtain ⟨w, w', v, v', t, rest, hw, -, -, -, -, -, -, rfl⟩ := hms
      refine ⟨fun h => absurd h.2 (List.cons_ne_nil _ _), fun _ => ?_⟩
      simp only [List.append_assoc]
      rw [← List.append_assoc w, ← List.append_assoc _ w', Json.Reader.skipSpace_comma hw]
      exact ⟨_, rfl⟩
  · refine ⟨fun h => absurd h.1 hnull, fun _ => ?_⟩
    obtain ⟨f, hf⟩ := unit_error hT hnull (u ++ '\x7d' :: s)
    rw [hf]
    exact ⟨f, rfl⟩

/-- An object is a choice if it has one member, with the name of the choice and `null`. -/
theorem gives_choiceObject (c : Choice) {ms : List (List Char × Tree)} {u : List Char}
    (h : SpellsMembers true ms u) (s : List Char) :
    Gives (choice true c ('\x7b' :: (u ++ '\x7d' :: s))) (choice? true c (.object ms)) s := by
  have hread : choice true c ('\x7b' :: (u ++ '\x7d' :: s)) =
      (choiceName c (u ++ '\x7d' :: s) >>= fun p => Json.Reader.colon p.2 >>= fun t =>
        token t >>= fun t => unit t >>= fun t => closeChoice t >>= fun t => .ok (p.1, t)) := rfl
  rw [hread]
  cases ms with
  | nil =>
    rw [SpellsMembers] at h
    rw [choiceName, Json.Reader.nextMember_end h]
    exact ⟨_, rfl⟩
  | cons m ms =>
    obtain ⟨k, T⟩ := m
    rw [SpellsMembers] at h
    obtain ⟨w, w', v, v', t, rest, hw, hw', hv, hv', hk, hT, hms, rfl⟩ := h
    -- The name is read, and what stands behind it does not depend on the name.
    have hname : Gives (choiceName c (w ++ comma true ++ w' ++
        '"' :: (k ++ '"' :: (v ++ ':' :: (v' ++ (t ++ (rest ++ '\x7d' :: s)))))))
        ((string? k).bind fun x => (choiceOf c x).toOption)
        (v ++ ':' :: (v' ++ (t ++ (rest ++ '\x7d' :: s)))) := by
      rw [choiceName, Json.Reader.nextMember_append hw hw']
      exact (Json.Tree.gives_string hk _).bind fun x _ => gives_checked (choiceOf c x) _
    obtain ⟨hend, hmore⟩ := closeChoice_of_spells hT hms s
    have hbehind : ∀ x : Json, (Json.Reader.colon (v ++ ':' :: (v' ++ (t ++ (rest ++ '\x7d' :: s))))
        >>= fun t => token t >>= fun t => unit t >>= fun t => closeChoice t >>= fun t =>
          Except.ok (x, t)) =
        ((unit (t ++ (rest ++ '\x7d' :: s)) >>= closeChoice).map fun t => (x, t)) := by
      intro x
      rw [Json.Reader.colon_append hv]
      simp only [bind, Except.bind, token_append hv', token_of_tree hT]
      cases unit (t ++ (rest ++ '\x7d' :: s)) with
      | error f => rfl
      | ok t => cases closeChoice t <;> rfl
    rw [Json.Tree.member_append]
    by_cases hnull : T = .null ∧ ms = []
    · have hchoice : choice? true c (.object ((k, T) :: ms)) =
          ((string? k).bind fun x => (choiceOf c x).toOption).bind some := by
        rw [hnull.1, hnull.2, Option.bind_fun_some]
        rfl
      rw [hchoice]
      refine hname.bind fun x _ => ?_
      rw [hbehind, hend hnull]
      rfl
    · have hchoice : choice? true c (.object ((k, T) :: ms)) =
          ((string? k).bind fun x => (choiceOf c x).toOption).bind fun _ => none := by
        rw [Option.bind_fun_none]
        unfold choice?
        split
        · next heq => cases heq
        · next heq =>
          cases heq
          exact absurd ⟨rfl, rfl⟩ hnull
        · rfl
      rw [hchoice]
      refine hname.bind fun x _ => ?_
      obtain ⟨f, hf⟩ := hmore hnull
      rw [hbehind, hf]
      exact ⟨f, rfl⟩

private theorem gives_choice (nested : Bool) (c : Choice) {T : Tree} {t : List Char}
    (h : T.Spells t)
    (s : List Char) : Gives (choice nested c (t ++ s)) (choice? nested c T) s := by
  have htoken := token_of_tree h s
  cases T with
  | string x =>
    rw [Spells] at h
    obtain ⟨hx, rfl⟩ := h
    have htext : '"' :: x ++ ['"'] ++ s = '"' :: (x ++ '"' :: s) := by simp
    rw [htext] at htoken ⊢
    rw [choice, htoken]
    exact (Json.Tree.gives_string hx s).bind fun x _ => gives_checked (choiceOf c x) s
  | object ms =>
    rw [Spells] at h
    obtain ⟨u, hu, rfl⟩ := h
    have htext : '\x7b' :: u ++ ['\x7d'] ++ s = '\x7b' :: (u ++ '\x7d' :: s) := by simp
    rw [htext]
    cases nested with
    | true => exact gives_choiceObject c hu s
    | false =>
      have hnone : choice? false c (.object ms) = none := by
        unfold choice?
        split <;> simp_all
      rw [hnone]
      exact ⟨_, rfl⟩
  | _ =>
    obtain ⟨d, t, rfl, htells⟩ := Json.Tree.tells_of_spells h
    rw [choice, htoken]
    simp only [bind, Except.bind]
    split
    · next heq => rcases htells.string (List.cons.inj heq).1 with ⟨_, ⟨⟩⟩
    · next heq => rcases htells.object (List.cons.inj heq).1 with ⟨_, ⟨⟩⟩
    · exact ⟨_, rfl⟩

/-! ### Records -/

section

variable {one : Shape → Json.Reader Json} {one? : Shape → Tree → Option Json}
  (hblank : ∀ shape w, Blank w → ∀ s, one shape (w ++ s) = one shape s)
  (hone : ∀ shape T t, T.Spells t → ∀ s, Stops s →
    Gives (one shape (t ++ s)) (one? shape T) s)

include hblank hone in
private theorem gives_member (r : Record) (found : Dictionary Json) (name : String) {T : Tree}
    {v v' t : List Char} (hv : Blank v) (hv' : Blank v') (hT : T.Spells t) {s : List Char}
    (hs : Stops s) :
    Gives (member one r found name (v ++ ':' :: (v' ++ (t ++ s)))) (member? one? r found name T)
      s := by
  cases hf : r.field? name with
  | none =>
    simp only [member, member?, hf, Json.Reader.colon_append hv, bind, Except.bind,
      Json.Tree.skipValue_of_spells hT hv' hs]
    rfl
  | some f =>
    cases hfound : Dictionary.get? name found with
    | some v =>
      simp only [member, member?, hf, hfound, Option.isSome_some, if_true]
      exact mismatchInObject_error _ _
    | none =>
      rw [member_eq_enter one hf hfound]
      simp only [member?, hf, hfound, Option.isSome_none, Bool.false_eq_true, if_false]
      exact Json.Tree.gives_enter (hblank f.shape) hv hv' (hone f.shape T t hT s hs) found name

/-- At the end of a list all other fields are left out. -/
theorem gives_fieldItems_end (r : Record) (fs : List RecordField) {w : List Char} (hw : Blank w)
    (place : Nat) (s : List Char) :
    Gives (fieldItems one r place fs (w ++ ']' :: s)) (fieldItems? one? fs []) (w ++ ']' :: s) := by
  induction fs generalizing place with
  | nil => rfl
  | cons f fs ih =>
    rw [fieldItems, Json.Reader.nextItem_end hw, fieldItems?]
    cases f.default? with
    | none => exact mismatchInList_error _ _
    | some d => exact ih (place + 1)

include hone in
/-- The items of a list are taken as the fields in order; what is left is the end of the list if
there are no more items than fields. -/
theorem gives_fieldItems (r : Record) (fs : List RecordField) (place : Nat) {Ts : List Tree}
    {u : List Char} (h : SpellsItems (place == 0) Ts u) (s : List Char) :
    ∃ s', Gives (fieldItems one r place fs (u ++ ']' :: s)) (fieldItems? one? fs Ts) s' ∧
      (Ts.length ≤ fs.length → Json.Reader.closeList s' = .ok s) ∧
      (¬ Ts.length ≤ fs.length → 0 < place + fs.length →
        ∃ f, Json.Reader.closeList s' = .error f) := by
  induction Ts generalizing fs place u with
  | nil =>
    rw [SpellsItems] at h
    exact ⟨_, gives_fieldItems_end r fs h place s, fun _ => Json.Reader.closeList_append h s,
      fun hmore => absurd (Nat.zero_le _) hmore⟩
  | cons T Ts ih =>
    rw [SpellsItems] at h
    obtain ⟨w, w', t, rest, hw, hw', hT, hTs, rfl⟩ := h
    cases fs with
    | nil =>
      refine ⟨_, rfl, fun hle => absurd hle (Nat.not_succ_le_zero _), fun _ hplace => ?_⟩
      have hfirst : (place == 0) = false := beq_false_of_ne (Nat.ne_of_gt hplace)
      rw [hfirst, List.append_assoc, List.append_assoc, Json.Reader.closeList,
        Json.Reader.skipSpace_comma hw]
      split
      · next heq => cases heq
      · next heq => exact absurd (List.cons.inj heq).1 (by decide)
      · split <;> exact ⟨_, rfl⟩
      · exact ⟨_, rfl⟩
    | cons f fs =>
      obtain ⟨s', hrest, hends, hmore⟩ := ih fs (place + 1) hTs
      obtain ⟨c, t', rfl, htells⟩ := Json.Tree.tells_of_spells hT
      have hitem := hone f.shape T _ hT _ (Json.Tree.stops_of_spellsItems hTs s)
      refine ⟨s', ?_, fun hle => hends (Nat.le_of_succ_le_succ hle),
        fun hlt _ => hmore (fun hle => hlt (Nat.succ_le_succ hle)) (by omega)⟩
      rw [Json.Reader.item_append, fieldItems,
        Json.Reader.nextItem_append hw hw' _ htells.space htells.close, fieldItems?]
      refine hitem.bind fun v _ => ?_
      rw [Option.map_eq_bind]
      exact hrest.bind fun found _ => rfl

/-- What was found for the fields is assembled, and then the record ends. -/
theorem gives_assembled (r : Record) (found : Dictionary Json)
    {refuse : Mismatch → List Char → Except Fault (Json × List Char)}
    (hrefuse : ∀ m s, ∃ f, refuse m s = .error f) {close : List Char → Except Fault (List Char)}
    {s' s : List Char} (hclose : close s' = .ok s) :
    Gives (match Record.assemble r.fields found with
      | .error m => refuse m s'
      | .ok ms => close s' >>= fun s => .ok (Json.object ms, s)) (assembled? r found) s := by
  rw [assembled?]
  cases Record.assemble r.fields found with
  | error m => exact hrefuse m s'
  | ok ms =>
    simp only [hclose]
    rfl

/-- Where something is left behind the fields, nothing is read. -/
theorem refused_of_rest (r : Record) (found : Dictionary Json) {s' : List Char}
    (hclose : ∃ f, Json.Reader.closeList s' = .error f) :
    ∃ f, (match Record.assemble r.fields found with
      | .error m => mismatchInList m s'
      | .ok ms => Json.Reader.closeList s' >>= fun s => .ok (Json.object ms, s)) = .error f := by
  cases Record.assemble r.fields found with
  | error m => exact mismatchInList_error m s'
  | ok ms =>
    obtain ⟨f, hf⟩ := hclose
    simp only [hf]
    exact ⟨f, rfl⟩

include hblank hone in
private theorem gives_record (r : Record) {T : Tree} {t : List Char} (h : T.Spells t)
    (s : List Char) :
    Gives (record (some one) r (t ++ s)) (record? (some one?) r T) s := by
  have htoken := token_of_tree h s
  cases T with
  | array Ts =>
    rw [Spells] at h
    obtain ⟨u, hu, rfl⟩ := h
    have htext : '[' :: u ++ [']'] ++ s = '[' :: (u ++ ']' :: s) := by simp
    have hread : record (some one) r ('[' :: (u ++ ']' :: s)) =
        (fieldItems one r 0 r.fields (u ++ ']' :: s) >>= _) := rfl
    obtain ⟨s', hfields, hends, hmore⟩ := gives_fieldItems hone r r.fields 0 hu s
    rw [htext, hread, record?, Option.bind_some]
    split
    · next hle =>
      exact hfields.bind fun found _ => gives_assembled r found mismatchInList_error (hends hle)
    · next hlt =>
      have hpos : 0 < 0 + r.fields.length := by cases r <;> decide
      have hnone : ((fieldItems? one? r.fields Ts).bind fun _ => (none : Option Json)) = none :=
        Option.bind_fun_none _
      rw [← hnone]
      exact hfields.bind fun found _ => refused_of_rest r found (hmore hlt hpos)
  | object ms =>
    rw [Spells] at h
    obtain ⟨u, hu, rfl⟩ := h
    have hread : record (some one) r ('\x7b' :: u ++ ['\x7d'] ++ s) =
        (Json.Reader.members (member one r) ((u ++ ['\x7d'] ++ s).length + 1) true []
          (u ++ ['\x7d'] ++ s) >>= _) := rfl
    obtain ⟨w, hw, hmembers⟩ := Json.Tree.gives_braces hu
      (fun found name m _ v v' t hv hv' ht s hs =>
        gives_member hblank hone r found name hv hv' ht hs) [] s
    rw [hread, record?, Option.bind_some]
    exact hmembers.bind fun found _ =>
      gives_assembled r found mismatchInObject_error (Json.Reader.closeObject_append hw s)
  | _ =>
    obtain ⟨c, t, rfl, htells⟩ := Json.Tree.tells_of_spells h
    rw [record, htoken]
    simp only [bind, Except.bind]
    split
    · next heq _ => rcases htells.array (List.cons.inj heq).1 with ⟨_, ⟨⟩⟩
    · next heq _ => rcases htells.object (List.cons.inj heq).1 with ⟨_, ⟨⟩⟩
    · next heq _ => rcases htells.array (List.cons.inj heq).1 with ⟨_, ⟨⟩⟩
    · next heq _ => rcases htells.object (List.cons.inj heq).1 with ⟨_, ⟨⟩⟩
    · exact wrongKind_error _ _

end

private theorem gives_record_closed (r : Record) {T : Tree} {t : List Char} (h : T.Spells t)
    (s : List Char) : Gives (record none r (t ++ s)) (record? none r T) s := by
  have htoken := token_of_tree h s
  have hnone : record? none r T = none := by cases T <;> rfl
  rw [hnone, record, htoken]
  simp only [bind, Except.bind]
  split
  · exact ⟨_, rfl⟩
  · exact ⟨_, rfl⟩
  · next hinner => cases hinner
  · next hinner => cases hinner
  · exact wrongKind_error _ _

/-! ### Shapes -/

/-- What reads the parts of a text, beside what reads the parts of its tree. -/
inductive Matches : Option (Shape → Json.Reader Json) → Option (Shape → Tree → Option Json) → Prop
  | closed : Matches none none
  | opened {one : Shape → Json.Reader Json} {one? : Shape → Tree → Option Json}
    (blank : ∀ shape w, Blank w → ∀ s, one shape (w ++ s) = one shape s)
    (gives : ∀ shape T t, T.Spells t → ∀ s, Stops s →
      Gives (one shape (t ++ s)) (one? shape T) s) : Matches (some one) (some one?)

private theorem gives_readWith (depth : Nat) {inner : Option (Shape → Json.Reader Json)}
    {inner? : Option (Shape → Tree → Option Json)} (hinner : Matches inner inner?) (shape : Shape)
    {T : Tree} {t : List Char} (h : T.Spells t) {s : List Char} (hs : Stops s) :
    Gives (readWith depth inner shape (t ++ s)) (readWith? depth inner? shape T) s := by
  induction shape generalizing T t s with
  | text =>
    simp only [readWith, readWith?]
    exact gives_checkedText _ _ h s
  | natural w =>
    simp only [readWith, readWith?]
    exact gives_natural w h hs
  | flag =>
    simp only [readWith, readWith?]
    exact gives_flag h s
  | anything =>
    simp only [readWith, readWith?]
    exact Json.Tree.gives_value depth h hs
  | span =>
    simp only [readWith, readWith?]
    exact gives_checkedText _ _ h s
  | instant =>
    simp only [readWith, readWith?]
    exact gives_checkedText _ _ h s
  | choice c =>
    have hnested : inner.isSome = inner?.isSome := by cases hinner <;> rfl
    simp only [readWith, readWith?, hnested]
    exact gives_choice _ c h s
  | record r =>
    simp only [readWith, readWith?]
    cases hinner with
    | opened blank gives => exact gives_record blank gives r h s
    | closed => exact gives_record_closed r h s
  | optional shape ih =>
    have hpart := ih h hs
    obtain ⟨c, t, rfl, htells⟩ := Json.Tree.tells_of_spells h
    rw [List.cons_append] at hpart ⊢
    rw [readWith]
    dsimp only
    rw [Json.Reader.skipSpace_cons htells.space]
    split
    · next heq =>
      cases htells.null (List.cons.inj heq).1
      rw [Spells] at h
      cases h
      cases heq
      simp only [readWith?]
      rfl
    · next hother =>
      have hnull : T ≠ .null := by
        rintro rfl
        rw [Spells] at h
        cases h
        exact hother _ rfl
      have hread : readWith? depth inner? (.optional shape) T = readWith? depth inner? shape T := by
        cases T with
        | null => exact absurd rfl hnull
        | _ => simp only [readWith?]
      rw [hread]
      exact hpart
  | list shape ih =>
    have htoken := token_of_tree h s
    cases T with
    | array Ts =>
      rw [Spells] at h
      obtain ⟨u, hu, rfl⟩ := h
      simp only [readWith?]
      cases hinner with
      | closed => exact ⟨_, rfl⟩
      | opened blank gives =>
        exact Json.Tree.gives_list hu (fun T _ t ht s hs => gives shape T t ht s hs) s
    | _ =>
      obtain ⟨c, t, rfl, htells⟩ := Json.Tree.tells_of_spells h
      simp only [readWith, readWith?, htoken, bind, Except.bind]
      split
      · next heq => rcases htells.array (List.cons.inj heq).1 with ⟨_, ⟨⟩⟩
      · next heq => rcases htells.array (List.cons.inj heq).1 with ⟨_, ⟨⟩⟩
      · exact wrongKind_error _ _
  | dictionary shape ih =>
    have htoken := token_of_tree h s
    cases T with
    | object ms =>
      rw [Spells] at h
      obtain ⟨u, hu, rfl⟩ := h
      simp only [readWith?]
      cases hinner with
      | closed => exact ⟨_, rfl⟩
      | opened blank gives =>
        exact Json.Tree.gives_object (blank shape) hu
          (fun m _ t ht s hs => gives shape m.2 t ht s hs) s
    | _ =>
      obtain ⟨c, t, rfl, htells⟩ := Json.Tree.tells_of_spells h
      simp only [readWith, readWith?, htoken, bind, Except.bind]
      split
      · next heq => rcases htells.object (List.cons.inj heq).1 with ⟨_, ⟨⟩⟩
      · next heq => rcases htells.object (List.cons.inj heq).1 with ⟨_, ⟨⟩⟩
      · exact wrongKind_error _ _

/-- Reading a text as a shape gives what is read from its tree. -/
theorem gives_read (depth : Nat) (shape : Shape) {T : Tree} {t : List Char} (h : T.Spells t)
    {s : List Char} (hs : Stops s) :
    Gives (read depth shape (t ++ s)) (read? depth shape T) s := by
  induction depth generalizing shape T t s with
  | zero => exact gives_readWith 0 .closed shape h hs
  | succ depth ih =>
    have hmatches : Matches (some (read depth)) (some (read? depth)) :=
      .opened (fun shape w hw => read_append hw depth shape)
        (fun shape T t ht s hs => ih shape ht hs)
    exact gives_readWith (depth + 1) hmatches shape h hs

end FromText

/-- A text is read as a shape if its tree is, and as the same value. -/
theorem fromText_of_spelled (shape : Shape) {T : Tree} {text : String} (h : T.Spelled text) :
    match FromTree.read? Json.maxDepth shape T with
    | some v => fromText shape text = .ok v
    | none => ∃ f, fromText shape text = .error f := by
  obtain ⟨w, t, w', hw, ht, hw', htext⟩ := h
  have hread := FromText.gives_read Json.maxDepth shape ht (.blank_append hw' .nil)
  rw [List.append_nil] at hread
  have hfinish : ∀ v : Json, Json.Reader.finish (v, w') = .ok v := by
    intro v
    have hempty : Json.Reader.skipSpace w' = [] := by
      rw [← List.append_nil w', Json.Reader.skipSpace_append hw']
      rfl
    simp only [Json.Reader.finish, hempty]
  have hstart : fromText shape text =
      (FromText.read Json.maxDepth shape (t ++ w') >>= Json.Reader.finish) := by
    rw [fromText, htext, List.append_assoc, FromText.read_append hw]
  rw [hstart]
  cases hv : FromTree.read? Json.maxDepth shape T with
  | some v =>
    rw [hv] at hread
    have hread : FromText.read Json.maxDepth shape (t ++ w') = .ok (v, w') := hread
    rw [hread]
    exact hfinish v
  | none =>
    rw [hv] at hread
    obtain ⟨f, hf⟩ := hread
    rw [hf]
    exact ⟨f, rfl⟩

end Mishap.Schema
