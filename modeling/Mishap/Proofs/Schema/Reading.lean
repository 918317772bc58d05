import Mishap.Proofs.Schema.Fits
import Mishap.Schema.FromText

/-!
# Reading shapes from spelled values

However a value that fits a shape is spelled, reading the text as the shape gives the value back if
enough brackets may be opened, and else reports that the text is too deep (`fromText_of_spells`).
-/

namespace Mishap.Schema

open Json (Spells Outcome stringChars)
open Json.Reader

namespace FromText

/-! ### Scalars -/

/-- A token begins behind blanks. -/
theorem token_append_cons {w : List Char} (hw : Blank w) {c : Char} (hc : isSpace c = false)
    (s : List Char) : token (w ++ c :: s) = .ok (c :: s) := by
  rw [token, skipSpace_append_cons hw hc]

/-- Blanks before a token make no difference to it. -/
theorem token_append {w : List Char} (hw : Blank w) (s : List Char) : token (w ++ s) = token s := by
  rw [token, skipSpace_append hw, token]

private theorem token_of_spells {v : Json} {t : List Char} (h : v.Spells t) (s : List Char) :
    token (t ++ s) = .ok (t ++ s) := by
  obtain ⟨c, t, rfl, hstart⟩ := Json.starts_of_spells h
  exact token_append_cons .nil hstart.spec.1 (t ++ s)

private theorem checkedText_chars {wanted : String} {check : String → Except Mismatch Json}
    {x : String}
    {v : Json} (h : check x = .ok v) (s : List Char) :
    checkedText wanted check (stringChars x ++ s) = .ok (v, s) := by
  obtain ⟨name, hname, hstring⟩ := string_chars x s
  have htoken : token ('"' :: name) = .ok ('"' :: name) := token_append_cons .nil rfl name
  rw [hname, checkedText, htoken]
  change (string name >>= fun p => checked (check p.1) p.2) = _
  rw [hstring]
  change checked (check x) s = _
  rw [h]
  rfl

private theorem choice_chars {c : Choice} {x : String} (h : x ∈ c.names) (nested : Bool)
    (s : List Char) :
    choice nested c (stringChars x ++ s) = .ok (.string x, s) := by
  obtain ⟨name, hname, hstring⟩ := string_chars x s
  have htoken : token ('"' :: name) = .ok ('"' :: name) := token_append_cons .nil rfl name
  rw [hname, choice, htoken]
  change (string name >>= fun p => checked (choiceOf c p.1) p.2) = _
  rw [hstring]
  change checked (choiceOf c x) s = _
  rw [choiceOf, if_pos h]
  rfl

private theorem natural_of_spells {w : Width} {n : Nat} (hn : n < w.limit) {t : List Char}
    (h : (Json.nat n).Spells t) {s : List Char} (hs : Stops s) :
    natural w (t ++ s) = .ok (.nat n, s) := by
  have htoken := token_of_spells h s
  obtain ⟨c, t, rfl, hstart⟩ := Json.starts_of_spells h
  have hsign : c = '-' ∨ Text.isDigit c = true := hstart
  rw [Json.nat, Spells] at h
  have hnumber := number_integer h.1 hs
  rw [← h.2] at hnumber
  rw [natural, htoken]
  change (if c = '-' ∨ Text.isDigit c = true then
    number (c :: t ++ s) >>= fun p => checked (naturalOf w p.1) p.2 else _) = _
  rw [if_pos hsign, hnumber]
  change checked (naturalOf w (.int n)) s = _
  rw [naturalOf, if_pos (by omega)]
  rfl

/-! ### Nested parts -/

/-- White space before a value is passed over, whatever its shape. -/
theorem readWith_append {w : List Char} (hw : Blank w) (depth : Nat)
    (inner : Option (Shape → Json.Reader Json)) (shape : Shape) (s : List Char) :
    readWith depth inner shape (w ++ s) = readWith depth inner shape s := by
  cases shape with
  | text => simp only [readWith, checkedText, token_append hw]
  | natural width => simp only [readWith, natural, token_append hw]
  | flag => simp only [readWith, flag, token_append hw]
  | anything => exact value_append hw depth s
  | span => simp only [readWith, checkedText, token_append hw]
  | instant => simp only [readWith, checkedText, token_append hw]
  | choice c => simp only [readWith, choice, token_append hw]
  | record r => simp only [readWith, record, token_append hw]
  | optional shape => simp only [readWith, skipSpace_append hw]
  | list shape => simp only [readWith, token_append hw]
  | dictionary shape => simp only [readWith, token_append hw]

/-- Blanks before a value make no difference to reading it. -/
theorem read_append {w : List Char} (hw : Blank w) (depth : Nat) (shape : Shape) (s : List Char) :
    read depth shape (w ++ s) = read depth shape s := by
  cases depth with
  | zero => exact readWith_append hw 0 none shape s
  | succ depth => exact readWith_append hw (depth + 1) (some (read depth)) shape s

/-- Behind a name that was not found yet, the value of the field is read and entered. -/
theorem member_eq_enter (one : Shape → Json.Reader Json) {r : Record} {name : String}
    {f : RecordField} (hf : r.field? name = some f) {found : Dictionary Json}
    (hfree : Dictionary.get? name found = none) :
    member one r found name = enter (one f.shape) found name := by
  funext s
  rw [member, hf]
  simp only [hfree, Option.isSome_none]
  rfl

/-- What reads the parts of a value, where a number of brackets may be opened. -/
inductive Serves : Nat → Option (Shape → Json.Reader Json) → Prop
  | closed : Serves 0 none
  | opened {depth : Nat} {one : Shape → Json.Reader Json}
    (blank : ∀ shape w, Blank w → ∀ s, one shape (w ++ s) = one shape s)
    (reads : ∀ shape v, Fits shape v → ∀ t, v.Spells t → ∀ s, Stops s →
      Outcome depth (nesting v) (v, s) (one shape (t ++ s))) : Serves (depth + 1) (some one)

/-- A record is read back if the values of its fields are. -/
theorem record_of_spells {inner : Option (Shape → Json.Reader Json)} {depth : Nat}
    (hinner : Serves depth inner) {r : Record} {ms : List (String × Json)} {t : List Char}
    (h : Spells (.object ms) t) (distinct : (ms.map (·.1)).Nodup)
    (known : ∀ m ∈ ms, (r.field? m.1).isSome)
    (fits : ∀ m ∈ ms, ∀ f, r.field? m.1 = some f → Fits f.shape m.2)
    (assembled : Record.assemble r.fields ms = .ok ms) (s : List Char) :
    Outcome depth (nesting (.object ms)) (Json.object ms, s) (record inner r (t ++ s)) := by
  rw [Spells] at h
  obtain ⟨u, hu, rfl⟩ := h
  cases hinner with
  | closed => exact .refused _ _ _
  | @opened depth one blank reads =>
    -- What is done behind the members, assembling them and closing the brace, is left to `record`.
    have hread : record (some one) r ('\x7b' :: u ++ ['\x7d'] ++ s) =
        (members (member one r) ((u ++ ['\x7d'] ++ s).length + 1) true [] (u ++ ['\x7d'] ++ s) >>=
          _) := rfl
    have hmember : ∀ found k x, (k, x) ∈ ms → Dictionary.get? k found = none →
        ∀ v v' t, Blank v → Blank v' → x.Spells t → ∀ s, Stops s →
          Outcome depth (nesting x) (Dictionary.insert k x found, s)
            (member one r found k (v ++ ':' :: (v' ++ (t ++ s)))) := by
      intro found k x hmem hfree v v' t hv hv' hx s hs
      obtain ⟨f, hf⟩ := Option.isSome_iff_exists.mp (known (k, x) hmem)
      rw [member_eq_enter one hf hfree]
      exact enter_of_spells (blank f.shape) hv hv'
        (reads f.shape x (fits (k, x) hmem f hf) t hx s hs) found k
    obtain ⟨w, hw, hmembers⟩ := members_of_braces hu hmember distinct s
    have hfound : Record.assemble r.fields (Dictionary.insertAll ms []) = .ok ms := by
      rw [← assembled]
      refine assemble_congr (fun name => ?_) r.fields
      rw [Dictionary.get?_insertAll distinct, Dictionary.get?_nil, Option.or_none]
    rw [hread, nesting]
    refine (hmembers.bind_ok ?_).succ
    simp only [hfound, closeObject_append hw]
    rfl

/-- Whatever fits a shape is read back, if what reads its parts gives them back. -/
theorem readWith_of_spells {inner : Option (Shape → Json.Reader Json)} {depth : Nat}
    (hinner : Serves depth inner) {shape : Shape} {v : Json} (hv : Fits shape v) {t : List Char}
    (h : v.Spells t) {s : List Char} (hs : Stops s) :
    Outcome depth (nesting v) (v, s) (readWith depth inner shape (t ++ s)) := by
  induction hv with
  | text x =>
    rw [Spells] at h
    subst h
    exact .of_ok (checkedText_chars rfl s)
  | natural range => exact .of_ok (natural_of_spells range h hs)
  | flag b =>
    rw [Spells] at h
    subst h
    cases b <;> exact .of_ok rfl
  | anything regular => exact value_of_spells depth regular h hs
  | span canonical =>
    rw [Spells] at h
    subst h
    exact .of_ok (checkedText_chars canonical s)
  | instant canonical =>
    rw [Spells] at h
    subst h
    exact .of_ok (checkedText_chars canonical s)
  | choice known =>
    rw [Spells] at h
    subst h
    exact .of_ok (choice_chars known _ s)
  | absent shape =>
    rw [Spells] at h
    subst h
    exact .of_ok rfl
  | present fits there ih =>
    have hpart := ih h
    obtain ⟨c, t, rfl, hstart⟩ := Json.starts_of_spells h
    rw [List.cons_append] at hpart ⊢
    rw [readWith]
    dsimp only
    rw [skipSpace_cons hstart.spec.1]
    split
    · next heq => exact absurd (List.cons.inj heq).1 (hstart.ne_n there)
    · exact hpart
  | list items _ =>
    rw [Spells] at h
    obtain ⟨u, hu, rfl⟩ := h
    cases hinner with
    | closed => exact .refused _ _ _
    | opened blank reads =>
      exact list_of_spells hu (fun x hx t ht s hs => reads _ x (items x hx) t ht s hs) s
  | dictionary order members _ =>
    rw [Spells] at h
    obtain ⟨u, hu, rfl⟩ := h
    cases hinner with
    | closed => exact .refused _ _ _
    | opened blank reads =>
      exact object_of_spells hu order (blank _)
        (fun m hm t ht s hs => reads _ m.2 (members m hm) t ht s hs) s
  | record distinct known fits assembled _ =>
    exact record_of_spells hinner h distinct known fits assembled s

/-- Whatever fits a shape is read back as far as enough brackets may be opened. -/
theorem read_of_spells (depth : Nat) {shape : Shape} {v : Json} (hv : Fits shape v) {t : List Char}
    (h : v.Spells t) {s : List Char} (hs : Stops s) :
    Outcome depth (nesting v) (v, s) (read depth shape (t ++ s)) := by
  induction depth generalizing shape v t s with
  | zero => exact readWith_of_spells .closed hv h hs
  | succ depth ih =>
    have hserves : Serves (depth + 1) (some (read depth)) :=
      .opened (fun shape w hw => read_append hw depth shape)
        (fun shape v hv t ht s hs => ih hv ht hs)
    exact readWith_of_spells hserves hv h hs

end FromText

/-- However a value that fits a shape is spelled, the text holds that value and no other. -/
theorem fromText_of_spells {shape : Shape} {v : Json} (hv : Fits shape v) {text : String}
    (h : v.Spells text.toList) :
    Outcome Json.maxDepth (nesting v) v (fromText shape text) := by
  have hread := FromText.read_of_spells Json.maxDepth hv h .nil
  rw [List.append_nil] at hread
  exact hread.bind_ok rfl

end Mishap.Schema
