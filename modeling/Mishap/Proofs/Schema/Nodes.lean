import Mishap.Proofs.Schema.Fits
import Mishap.Proofs.Yaml.Tree
import Mishap.Schema.FromNode

/-!
# Reading shapes from written trees

The tree of a value that fits a shape is read as that value if enough lists and objects may stand
inside one another (`FromNode.read_nodeOf`), whichever style was chosen for its texts. So is the
text that is written for an object (`fromYaml?_write`).
-/

namespace Mishap.Schema

open Yaml (Document nodeOf nodesOf entriesOf textNode scalarNode)
open Yaml.Writer (styleOf)
open Yaml.Lexer (readStyle)

namespace FromNode

/-- The reader takes the tree of a value for that value, and follows no reference for it. -/
def Gives (one : Reader Json) (v : Json) : Prop :=
  ∀ jumps, one (nodeOf v) jumps = some (v, jumps)

/-! ### Scalars -/

/-- No part of a written tree is a reference. -/
@[simp] theorem follow?_nodeOf (d : Document) (v : Json) (jumps : Nat) :
    follow? d (nodeOf v) jumps = some (nodeOf v, jumps) := by
  cases v <;> rfl

/-- The tree of a string is read as the string. -/
@[simp] theorem scalarText?_string (s : String) : scalarText? (nodeOf (.string s)) = some s :=
  congrArg some String.ofList_toList

private theorem key?_textNode (d : Document) (k : String) (jumps : Nat) :
    key? d (textNode k) jumps = some (k, jumps) := by
  have hfollow : follow? d (textNode k) jumps = some (textNode k, jumps) :=
    follow?_nodeOf d (.string k) jumps
  have htext : scalarText? (textNode k) = some k := scalarText?_string k
  simp [key?, hfollow, htext]

/-- A text that is written without quotes means a text. -/
theorem meaning_of_readStyle {s : List Char} (h : readStyle (styleOf s) = .plain) :
    Yaml.Plain.meaning s = .text := by
  have hsuits := Yaml.suits_styleOf s
  cases hstyle : styleOf s with
  | plain =>
    rw [hstyle] at hsuits
    exact hsuits.2
  | _ =>
    rw [hstyle] at h
    exact absurd h nofun

private theorem untaggedValue?_text (s : String) :
    untaggedValue? (readStyle (styleOf s.toList)) s.toList = some (.string s) := by
  rw [untaggedValue?]
  split
  · next hplain => simp [plainValue?, meaning_of_readStyle hplain]
  · simp

private theorem isAbsent?_text (s : String) : isAbsent? (nodeOf (.string s)) = some false := by
  have hstyle : ∀ style, (style = .plain → Yaml.Plain.isNull s.toList = false) →
      isAbsent? (scalarNode style s.toList) = some false := by
    intro style hplain
    cases style with
    | plain => exact congrArg some (hplain rfl)
    | _ => rfl
  exact hstyle _ fun h => Yaml.Plain.isNull_of_meaning (meaning_of_readStyle h)

/-- Nothing but null stands for a value that is left out. -/
theorem isAbsent?_nodeOf {v : Json} (h : v.Integral) (there : v ≠ .null) :
    isAbsent? (nodeOf v) = some false := by
  cases h with
  | null => exact absurd rfl there
  | bool b => cases b <;> decide
  | int range =>
    exact congrArg some (Yaml.Plain.isNull_integer _)
  | string s => exact isAbsent?_text s
  | array _ => rfl
  | object _ => rfl

/-! ### Parts -/

section

variable {d : Document} {one : Reader Json} {xs : List Json} {ms : List (String × Json)}

private theorem items_nodesOf (h : ∀ x ∈ xs, Gives one x) (jumps : Nat) :
    items one (nodesOf xs) jumps = some (xs, jumps) := by
  induction xs with
  | nil => rfl
  | cons x xs ih =>
    have hitem := h x List.mem_cons_self jumps
    have hrest := ih fun y hy => h y (List.mem_cons_of_mem x hy)
    simp [nodesOf, items, hitem, hrest]

private theorem entries_entriesOf (h : ∀ m ∈ ms, Gives one m.2) (found : Dictionary Json)
    (jumps : Nat) :
    entries d one (entriesOf ms) found jumps = some (Dictionary.insertAll ms found, jumps) := by
  induction ms generalizing found with
  | nil => rfl
  | cons m ms ih =>
    obtain ⟨k, x⟩ := m
    have hvalue : one (nodeOf x) jumps = some (x, jumps) := h (k, x) List.mem_cons_self jumps
    have hrest := ih (fun n hn => h n (List.mem_cons_of_mem _ hn)) (Dictionary.insert k x found)
    simp [entriesOf, entries, key?_textNode, hvalue, hrest, Dictionary.insertAll]

/-- Members in order are read as they are. -/
theorem entries_of_ascending (h : ∀ m ∈ ms, Gives one m.2) (order : Dictionary.Ascending ms)
    (jumps : Nat) : entries d one (entriesOf ms) [] jumps = some (ms, jumps) := by
  have hsorted : Dictionary.insertAll ms [] = ms := Dictionary.ofEntries_of_ascending order
  rw [entries_entriesOf h, hsorted]

/-- The members of a record are entered one after the other, as long as no name comes again. -/
theorem fieldEntries_entriesOf {one : Shape → Reader Json} {r : Record}
    (distinct : (ms.map (·.1)).Nodup) (known : ∀ m ∈ ms, (r.field? m.1).isSome)
    (h : ∀ m ∈ ms, ∀ f, r.field? m.1 = some f → Gives (one f.shape) m.2) {found : Dictionary Json}
    (fresh : ∀ m ∈ ms, Dictionary.get? m.1 found = none) (jumps : Nat) :
    fieldEntries d one r (entriesOf ms) found jumps =
      some (Dictionary.insertAll ms found, jumps) := by
  induction ms generalizing found with
  | nil => rfl
  | cons m ms ih =>
    obtain ⟨k, x⟩ := m
    obtain ⟨hfirst, hlater⟩ := List.nodup_cons.mp distinct
    obtain ⟨f, hf⟩ := Option.isSome_iff_exists.mp (known (k, x) List.mem_cons_self)
    have hvalue : one f.shape (nodeOf x) jumps = some (x, jumps) :=
      h (k, x) List.mem_cons_self f hf jumps
    have hfree : Dictionary.get? k found = none := fresh (k, x) List.mem_cons_self
    have hfresh : ∀ n ∈ ms, Dictionary.get? n.1 (Dictionary.insert k x found) = none := by
      intro n hn
      have hne : k ≠ n.1 := fun heq => hfirst (List.mem_map.mpr ⟨n, hn, heq.symm⟩)
      rw [Dictionary.get?_insert, if_neg hne]
      exact fresh n (List.mem_cons_of_mem _ hn)
    have hrest := ih hlater (fun n hn => known n (List.mem_cons_of_mem _ hn))
      (fun n hn => h n (List.mem_cons_of_mem _ hn)) hfresh
    dsimp only at hf
    simp [entriesOf, fieldEntries, key?_textNode, hf, hfree, hvalue, hrest, Dictionary.insertAll]

end

/-! ### Nested parts -/

private theorem nesting_le_nestingItems {xs : List Json} {x : Json} (h : x ∈ xs) :
    nesting x ≤ nestingItems xs := by
  induction xs with
  | nil => exact absurd h List.not_mem_nil
  | cons y xs ih =>
    rw [nestingItems]
    rcases List.mem_cons.mp h with rfl | hmem
    · exact Nat.le_max_left _ _
    · exact Nat.le_trans (ih hmem) (Nat.le_max_right _ _)

private theorem nesting_le_nestingMembers {ms : List (String × Json)} {m : String × Json}
    (h : m ∈ ms) :
    nesting m.2 ≤ nestingMembers ms := by
  induction ms with
  | nil => exact absurd h List.not_mem_nil
  | cons n ms ih =>
    rw [nestingMembers]
    rcases List.mem_cons.mp h with rfl | hmem
    · exact Nat.le_max_left _ _
    · exact Nat.le_trans (ih hmem) (Nat.le_max_right _ _)

/-- What reads the parts of a value, where a number of lists and objects may stand inside one
another. -/
inductive Serves {α : Type} (reads : α → Json → Prop) : Nat → Option α → Prop
  | closed : Serves reads 0 none
  | opened {depth : Nat} {one : α} (h : ∀ v, nesting v ≤ depth → reads one v) :
    Serves reads (depth + 1) (some one)

/-- Where a list or an object may stand, there is something that reads its parts. -/
theorem Serves.exists_one {α : Type} {reads : α → Json → Prop} {depth : Nat} {inner : Option α}
    (h : Serves reads depth inner) {n : Nat} (hn : n + 1 ≤ depth) :
    ∃ one, inner = some one ∧ ∀ v, nesting v ≤ n → reads one v := by
  cases h with
  | closed => exact absurd hn (Nat.not_succ_le_zero n)
  | @opened depth one h =>
    exact ⟨one, rfl, fun v hv => h v (Nat.le_trans hv (Nat.le_of_succ_le_succ hn))⟩

variable {d : Document} {depth : Nat} {v : Json}

private theorem anyWith_scalar {inner : Option (Reader Json)} {style : Yaml.ScalarStyle}
    {text : List Char}
    (hnode : nodeOf v = scalarNode style text) (h : untaggedValue? style text = some v) :
    Gives (anyWith d inner) v := by
  intro jumps
  have hvalue : scalarValue? none style text = some v := h
  simp [anyWith, hnode, scalarNode, follow?, hvalue]

/-- Regular data is read from its tree, if what reads its parts gives them back. -/
theorem anyWith_nodeOf {inner : Option (Reader Json)}
    (hinner : Serves (fun one v => v.Regular → Gives one v) depth inner) (hv : v.Regular)
    (h : nesting v ≤ depth) : Gives (anyWith d inner) v := by
  cases hv with
  | null => exact anyWith_scalar rfl rfl
  | bool b => cases b <;> exact anyWith_scalar rfl rfl
  | @int i range =>
    have hplain : plainValue? (Text.integer i) = some (.number (.int i)) := by
      rw [plainValue?, Yaml.Plain.meaning_integer range]
      rfl
    exact anyWith_scalar rfl hplain
  | string s => exact anyWith_scalar rfl (untaggedValue?_text s)
  | array items =>
    intro jumps
    obtain ⟨one, rfl, hone⟩ := hinner.exists_one h
    have hitems := items_nodesOf fun x hx => hone x (nesting_le_nestingItems hx) (items x hx)
    simp [anyWith, nodeOf, follow?, localTag?, hitems]
  | object order members =>
    intro jumps
    obtain ⟨one, rfl, hone⟩ := hinner.exists_one h
    have hmembers := entries_of_ascending (d := d)
      (fun m hm => hone m.2 (nesting_le_nestingMembers hm) (members m hm)) order
    simp [anyWith, nodeOf, follow?, localTag?, hmembers]

/-- Regular data is read from its tree as far as enough lists and objects may stand inside one
another. -/
theorem anything_nodeOf (hv : v.Regular) (h : nesting v ≤ depth) : Gives (anything d depth) v := by
  induction depth generalizing v with
  | zero => exact anyWith_nodeOf .closed hv h
  | succ depth ih => exact anyWith_nodeOf (.opened fun v hle hv => ih hv hle) hv h

/-! ### Shapes -/

private theorem naturalOf_of_lt {w : Width} {n : Nat} (h : n < w.limit) :
    naturalOf w (.int n) = .ok (.nat n) := by
  rw [naturalOf, if_pos ⟨by omega, by omega⟩]
  rfl

/-- Whatever fits a shape is read from its tree, if what reads its parts gives them back. -/
theorem readWith_nodeOf {inner : Option (Shape → Reader Json)} {shape : Shape}
    (hinner : Serves (fun one v => ∀ shape, Fits shape v → Gives (one shape) v) depth inner)
    (hv : Fits shape v) (h : nesting v ≤ depth) : Gives (readWith d depth inner shape) v := by
  intro jumps
  induction hv with
  | text x => simp [readWith]
  | @natural w n range =>
    have hliteral : literal? "int" (nodeOf (.nat n)) = some (Text.decimal n) := rfl
    simp [readWith, hliteral, Yaml.Plain.natural?_decimal, naturalOf_of_lt range, checked?]
  | flag b => cases b <;> rfl
  | anything regular => exact anything_nodeOf regular h jumps
  | span canonical => simp [readWith, canonical, checked?]
  | instant canonical => simp [readWith, canonical, checked?]
  | @choice c s known =>
    have hchoice : choiceOf c s = .ok (.string s) := if_pos known
    simp [readWith, nodeOf, textNode, scalarNode, follow?, choice?, localTag?, hchoice, checked?]
  | absent shape => rfl
  | present fits there ih =>
    have habsent := isAbsent?_nodeOf fits.integral there
    simp [readWith, habsent, ih h]
  | list items _ =>
    obtain ⟨one, rfl, hone⟩ := hinner.exists_one h
    have hitems := items_nodesOf fun x hx => hone x (nesting_le_nestingItems hx) _ (items x hx)
    simp [readWith, nodeOf, follow?, hitems]
  | dictionary order members _ =>
    obtain ⟨one, rfl, hone⟩ := hinner.exists_one h
    have hmembers := entries_of_ascending (d := d)
      (fun m hm => hone m.2 (nesting_le_nestingMembers hm) _ (members m hm)) order
    simp [readWith, nodeOf, follow?, hmembers]
  | @record r ms distinct known members assembled _ =>
    obtain ⟨one, rfl, hone⟩ := hinner.exists_one h
    have hfields := fieldEntries_entriesOf (d := d) distinct known
      (fun m hm f hf => hone m.2 (nesting_le_nestingMembers hm) f.shape (members m hm f hf))
      (fun m _ => Dictionary.get?_nil m.1) jumps
    have hfound : Record.assemble r.fields (Dictionary.insertAll ms []) = .ok ms := by
      rw [← assembled]
      refine assemble_congr (fun name => ?_) r.fields
      rw [Dictionary.get?_insertAll distinct, Dictionary.get?_nil, Option.or_none]
    simp [readWith, nodeOf, follow?, hfields, assembled?, hfound]

/-- Whatever fits a shape is read from its tree as far as enough lists and objects may stand inside
one another. -/
theorem read_nodeOf {shape : Shape} (hv : Fits shape v) (h : nesting v ≤ depth) :
    Gives (read d depth shape) v := by
  induction depth generalizing shape v with
  | zero => exact readWith_nodeOf .closed hv h
  | succ depth ih => exact readWith_nodeOf (.opened fun v hle shape hv => ih hv hle) hv h

end FromNode

/-- The text that is written for an object that fits a shape holds that object and nothing else. -/
theorem fromYaml?_write {shape : Shape} {n : String × Json} {ms : List (String × Json)}
    (hv : Fits shape (.object (n :: ms))) (h : nesting (.object (n :: ms)) ≤ maxNesting) :
    fromYaml? shape (Yaml.write (.object (n :: ms))) = some (.object (n :: ms)) := by
  rw [fromYaml?, Yaml.ofText?_write hv.integral]
  simp [Document.ofRoot, FromNode.read_nodeOf hv h 0]

end Mishap.Schema
