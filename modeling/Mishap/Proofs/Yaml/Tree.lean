import Mishap.Proofs.Yaml.Values
import Mishap.Yaml.Node

/-!
# Trees of written values

The tokens of a value are put together to the tree of the value (`parses_of_integral`), so that the
text of an object holds the one document whose root is its tree (`ofText?_write`). Nothing in the
tree has an anchor or a tag.
-/

namespace Mishap.Yaml

open Writer
open Lexer (textToken readStyle)
open Node (Feed)

/-- A scalar without an anchor and a tag. -/
def scalarNode (style : ScalarStyle) (text : List Char) : Node := .scalar none none style text

/-- The node of a text. -/
def textNode (s : String) : Node := scalarNode (readStyle (styleOf s.toList)) s.toList

mutual

/-- The tree of a value. -/
def nodeOf : Json → Node
  | .null => scalarNode .plain "null".toList
  | .bool b => scalarNode .plain (if b then "true".toList else "false".toList)
  | .number n => scalarNode .plain (numberChars n)
  | .string s => textNode s
  | .array xs => .list none none (nodesOf xs)
  | .object ms => .object none none (entriesOf ms)

/-- The trees of items. -/
def nodesOf : List Json → List Node
  | [] => []
  | x :: xs => nodeOf x :: nodesOf xs

/-- The trees of members. -/
def entriesOf : List (String × Json) → List (Node × Node)
  | [] => []
  | (k, x) :: ms => (textNode k, nodeOf x) :: entriesOf ms

end

namespace Node

/-! ### Feeds -/

/-- Tokens in front of the others. -/
def Feed.push (ts : List Token) (f : Feed) : Feed := { f with tokens := ts ++ f.tokens }

namespace Feed

/-- Tokens are fed one after the other, or all at once. -/
@[simp] theorem push_push (ts us : List Token) (f : Feed) :
    (f.push us).push ts = f.push (ts ++ us) := by
  simp [push]

/-- To feed nothing changes nothing. -/
@[simp] theorem push_nil (f : Feed) : f.push [] = f := rfl

/-- What is fed comes first. -/
@[simp] theorem tokens_push (ts : List Token) (f : Feed) :
    (f.push ts).tokens = ts ++ f.tokens := rfl

/-- The first token that was fed is the next. -/
@[simp] theorem next_push_cons (t : Token) (ts : List Token) (f : Feed) :
    (f.push (t :: ts)).next = f.push ts := rfl

/-- The feed sees the first token that was fed. -/
@[simp] theorem sees_push_cons (ends : List Token) (t : Token) (ts : List Token) (f : Feed) :
    (f.push (t :: ts)).sees ends = ends.elem t := rfl

end Feed

/-! ### One token -/

section

variable (fuel : Nat) (block indentless : Bool) (f : Feed) (ts : List Token)

private theorem parse?_scalar (style : ScalarStyle) (text : List Char) :
    parse? (fuel + 1) block indentless (f.push [.scalar style text]) =
      some (scalarNode style text, f) := by
  simp [parse?, Feed.properties?, Feed.anchor?, Feed.tag?, Feed.declare?, scalarNode]

private theorem parse?_flowList :
    parse? (fuel + 2) block indentless (f.push [.flowListStart, .flowListEnd]) =
      some (.list none none [], f) := by
  simp [parse?, flowItems?, Feed.properties?, Feed.anchor?, Feed.tag?, Feed.declare?]

private theorem parse?_flowObject :
    parse? (fuel + 2) block indentless (f.push [.flowObjectStart, .flowObjectEnd]) =
      some (.object none none [], f) := by
  simp [parse?, flowEntries?, Feed.properties?, Feed.anchor?, Feed.tag?, Feed.declare?]

private theorem parse?_blockList :
    parse? (fuel + 1) true indentless (f.push (.blockListStart :: ts)) =
      (blockItems? fuel (f.push ts)).bind fun r => some (.list none none r.1, r.2) := by
  simp [parse?, Feed.properties?, Feed.anchor?, Feed.tag?, Feed.declare?]

private theorem parse?_indentless :
    parse? (fuel + 1) true true (f.push (.blockItem :: ts)) =
      (indentlessItems? fuel (f.push (.blockItem :: ts))).bind fun r =>
        some (.list none none r.1, r.2) := by
  simp [parse?, Feed.properties?, Feed.anchor?, Feed.tag?, Feed.declare?]

private theorem parse?_blockObject :
    parse? (fuel + 1) true indentless (f.push (.blockObjectStart :: ts)) =
      (blockEntries? fuel (f.push ts)).bind fun r => some (.object none none r.1, r.2) := by
  simp [parse?, Feed.properties?, Feed.anchor?, Feed.tag?, Feed.declare?]

end

end Node

/-! ### Values -/

/-- The tokens of a value begin it, so that its place is not empty. -/
theorem exists_nodeTokens (place : Place) (v : Json) :
    ∃ t ts, nodeTokens place v = t :: ts ∧ t ∉ [Token.key, .value, .blockEnd] ∧
      (place ≠ .key → t ≠ .blockItem) := by
  cases v with
  | array xs =>
    cases xs with
    | nil => exact ⟨_, _, rfl, by decide, fun _ => by decide⟩
    | cons x xs =>
      rw [nodeTokens]
      split
      · next hkey => exact ⟨_, _, rfl, by decide, fun h => absurd hkey h⟩
      · exact ⟨_, _, rfl, by decide, fun _ => by decide⟩
  | object ms => cases ms <;> exact ⟨_, _, rfl, by decide, fun _ => by decide⟩
  | _ => exact ⟨_, _, rfl, by simp [textToken], fun _ => by simp [textToken]⟩

/-- The tokens of a value, before any that do not go on with it, are put together to its tree. -/
def Parses (v : Json) : Prop :=
  ∀ ⦃place : Place⦄ ⦃indentless : Bool⦄ ⦃fuel : Nat⦄ (f : Feed),
    (place = .key → indentless = true ∧ f.tokens.head? ≠ some .blockItem) →
    3 * (nodeTokens place v).length + 2 ≤ fuel →
    Node.parse? fuel true indentless (f.push (nodeTokens place v)) = some (nodeOf v, f)

namespace Node

private theorem parseUnless?_of_parses {v : Json} (hv : Parses v) {place : Place}
    {ends : List Token}
    (hends : ∀ t ∈ ends, t ∈ [Token.key, .value, .blockEnd] ∨ (place ≠ .key ∧ t = .blockItem))
    (indentless : Bool) (f : Feed)
    (hplace : place = .key → indentless = true ∧ f.tokens.head? ≠ some .blockItem) {fuel : Nat}
    (hfuel : 3 * (nodeTokens place v).length + 3 ≤ fuel) :
    parseUnless? fuel ends true indentless (f.push (nodeTokens place v)) = some (nodeOf v, f) := by
  obtain ⟨fuel, rfl⟩ : ∃ g, fuel = g + 1 := Nat.exists_eq_add_one.mpr (by omega)
  rw [← hv f hplace (Nat.le_of_succ_le_succ hfuel)]
  obtain ⟨t, ts, heq, hnot, hitem⟩ := exists_nodeTokens place v
  have hsees : ends.elem t = false := by
    rw [← Bool.not_eq_true, List.elem_iff]
    intro hmem
    exact (hends t hmem).elim hnot fun ⟨hplace, hblock⟩ => hitem hplace hblock
  rw [parseUnless?, heq, Feed.sees_push_cons, hsees, if_neg Bool.false_ne_true]

section

variable {xs : List Json} {ms : List (String × Json)} {fuel : Nat} (f : Feed)

private theorem blockItems?_itemsTokens (h : ∀ x ∈ xs, Parses x)
    (hfuel : 3 * (itemsTokens xs).length + 1 ≤ fuel) :
    blockItems? fuel (f.push (itemsTokens xs ++ [.blockEnd])) = some (nodesOf xs, f) := by
  induction xs generalizing fuel with
  | nil =>
    obtain ⟨fuel, rfl⟩ : ∃ g, fuel = g + 1 := Nat.exists_eq_add_one.mpr (by omega)
    simp [blockItems?, itemsTokens, nodesOf]
  | cons x xs ih =>
    rw [itemsTokens, List.length_append, List.length_cons] at hfuel
    obtain ⟨fuel, rfl⟩ : ∃ g, fuel = g + 1 := Nat.exists_eq_add_one.mpr (by omega)
    have hends : ∀ t ∈ [Token.blockItem, .blockEnd],
        t ∈ [Token.key, .value, .blockEnd] ∨ (Place.mark ≠ .key ∧ t = .blockItem) := by
      decide
    have hitem := parseUnless?_of_parses (h x List.mem_cons_self) hends false
      (f.push (itemsTokens xs ++ [.blockEnd])) (by simp) (show _ ≤ fuel by omega)
    have hrest := ih (fun y hy => h y (List.mem_cons_of_mem x hy)) (show _ ≤ fuel by omega)
    rw [Feed.push_push] at hitem
    simp [blockItems?, itemsTokens, nodesOf, hitem, hrest]

private theorem indentlessItems?_itemsTokens (h : ∀ x ∈ xs, Parses x)
    (hnext : f.tokens.head? ≠ some .blockItem) (hfuel : 3 * (itemsTokens xs).length + 1 ≤ fuel) :
    indentlessItems? fuel (f.push (itemsTokens xs)) = some (nodesOf xs, f) := by
  induction xs generalizing fuel with
  | nil =>
    obtain ⟨fuel, rfl⟩ : ∃ g, fuel = g + 1 := Nat.exists_eq_add_one.mpr (by omega)
    rw [itemsTokens, Feed.push_nil, indentlessItems?]
    split
    · next heq => exact absurd (heq ▸ rfl) hnext
    · rfl
  | cons x xs ih =>
    rw [itemsTokens, List.length_append, List.length_cons] at hfuel
    obtain ⟨fuel, rfl⟩ : ∃ g, fuel = g + 1 := Nat.exists_eq_add_one.mpr (by omega)
    have hends : ∀ t ∈ [Token.blockItem, .key, .value, .blockEnd],
        t ∈ [Token.key, .value, .blockEnd] ∨ (Place.mark ≠ .key ∧ t = .blockItem) := by
      decide
    have hitem := parseUnless?_of_parses (h x List.mem_cons_self) hends false
      (f.push (itemsTokens xs)) (by simp) (show _ ≤ fuel by omega)
    have hrest := ih (fun y hy => h y (List.mem_cons_of_mem x hy)) (show _ ≤ fuel by omega)
    rw [Feed.push_push] at hitem
    simp [indentlessItems?, itemsTokens, nodesOf, hitem, hrest]

private theorem blockEntries?_membersTokens (h : ∀ m ∈ ms, Parses m.2)
    (hfuel : 3 * (membersTokens ms).length + 1 ≤ fuel) :
    blockEntries? fuel (f.push (membersTokens ms ++ [.blockEnd])) = some (entriesOf ms, f) := by
  induction ms generalizing fuel with
  | nil =>
    obtain ⟨fuel, rfl⟩ : ∃ g, fuel = g + 1 := Nat.exists_eq_add_one.mpr (by omega)
    simp [blockEntries?, membersTokens, entriesOf]
  | cons m ms ih =>
    obtain ⟨k, x⟩ := m
    rw [membersTokens, List.length_append, List.length_cons, List.length_cons,
      List.length_cons] at hfuel
    obtain ⟨fuel, rfl⟩ : ∃ g, fuel = g + 1 := Nat.exists_eq_add_one.mpr (by omega)
    have hends : ∀ t ∈ [Token.key, .value, .blockEnd],
        t ∈ [Token.key, .value, .blockEnd] ∨ (placeAfter k ≠ .key ∧ t = .blockItem) :=
      fun t ht => .inl ht
    have hnext : (f.push (membersTokens ms ++ [.blockEnd])).tokens.head? ≠ some .blockItem := by
      cases ms <;> simp [membersTokens]
    have hvalue := parseUnless?_of_parses (h (k, x) List.mem_cons_self) hends true
      (f.push (membersTokens ms ++ [.blockEnd])) (fun _ => ⟨rfl, hnext⟩)
      (show _ ≤ fuel by dsimp only; omega)
    have hrest := ih (fun y hy => h y (List.mem_cons_of_mem _ hy)) (show _ ≤ fuel by omega)
    have hkey : ∀ ts, parseUnless? fuel [.key, .value, .blockEnd] true true
        (f.push (textToken k.toList :: ts)) = some (textNode k, f.push ts) := by
      intro ts
      obtain ⟨fuel, rfl⟩ : ∃ g, fuel = g + 2 := ⟨fuel - 2, by omega⟩
      have hscalar :=
        parse?_scalar fuel true true (f.push ts) (readStyle (styleOf k.toList)) k.toList
      rwa [Feed.push_push] at hscalar
    rw [Feed.push_push] at hvalue
    simp [blockEntries?, membersTokens, entriesOf, hkey, hvalue, hrest]

end

end Node

/-- The tokens of a value are put together to its tree, as long as its numbers are integers. -/
theorem parses_of_integral {v : Json} (h : v.Integral) : Parses v := by
  induction h with
  | @array xs items ih =>
    intro place indentless fuel f hplace hfuel
    cases xs with
    | nil =>
      obtain ⟨fuel, rfl⟩ : ∃ g, fuel = g + 2 := ⟨fuel - 2, by omega⟩
      exact Node.parse?_flowList fuel true indentless f
    | cons x xs =>
      obtain ⟨fuel, rfl⟩ : ∃ g, fuel = g + 1 := Nat.exists_eq_add_one.mpr (by omega)
      rw [nodeTokens_array place (List.cons_ne_nil x xs)] at hfuel ⊢
      split at hfuel
      · next hkey =>
        obtain ⟨rfl, hnext⟩ := hplace hkey
        rw [if_pos hkey]
        have hitems := Node.indentlessItems?_itemsTokens f ih hnext (show _ ≤ fuel by omega)
        rw [itemsTokens, List.cons_append] at hitems ⊢
        rw [Node.parse?_indentless, hitems]
        rfl
      · next hkey =>
        rw [List.cons_append, List.length_cons, List.length_append] at hfuel
        have hitems := Node.blockItems?_itemsTokens f ih (show _ ≤ fuel by omega)
        rw [if_neg hkey, List.cons_append, Node.parse?_blockList, hitems]
        rfl
  | @object ms members ih =>
    intro place indentless fuel f hplace hfuel
    cases ms with
    | nil =>
      obtain ⟨fuel, rfl⟩ : ∃ g, fuel = g + 2 := ⟨fuel - 2, by omega⟩
      exact Node.parse?_flowObject fuel true indentless f
    | cons m ms =>
      obtain ⟨fuel, rfl⟩ : ∃ g, fuel = g + 1 := Nat.exists_eq_add_one.mpr (by omega)
      rw [nodeTokens_object place (List.cons_ne_nil m ms)] at hfuel ⊢
      rw [List.cons_append, List.length_cons, List.length_append] at hfuel
      have hentries := Node.blockEntries?_membersTokens f ih (show _ ≤ fuel by omega)
      rw [List.cons_append, Node.parse?_blockObject, hentries]
      rfl
  | _ =>
    intro place indentless fuel f hplace hfuel
    obtain ⟨fuel, rfl⟩ : ∃ g, fuel = g + 1 := Nat.exists_eq_add_one.mpr (by omega)
    exact Node.parse?_scalar fuel true indentless f _ _

/-! ### Documents -/

private theorem ofTokens?_object (ts : List Token) {root : Node} {f : Feed} (hf : f.tokens = [])
    (h : Node.parse? (4 * (Token.blockObjectStart :: ts).length + 4) true false
      ⟨.blockObjectStart :: ts, [], Document.knownHandles⟩ = some (root, f)) :
    Document.ofTokens? (.blockObjectStart :: ts) = some (.ofRoot root) := by
  have hdirectives : Document.directives? false [] (.blockObjectStart :: ts) =
      some ([], .blockObjectStart :: ts) := rfl
  have hknown : Document.knownHandles.filter
      (fun k => (([] : List (List Char × List UInt8)).lookup k.1).isNone) =
        Document.knownHandles := rfl
  simp only [Document.ofTokens?, hdirectives, Option.bind_eq_bind, Option.bind_some,
    List.isEmpty_nil, Bool.not_true, bne_self_eq_false, Bool.or_self, List.nil_append, hknown, h,
    hf]
  rfl

/-- The text of an object holds one document, whose root is the tree of the object. -/
theorem ofText?_write {n : String × Json} {ms : List (String × Json)}
    (h : Json.Integral (.object (n :: ms))) :
    Document.ofText? (write (.object (n :: ms))) =
      some (.ofRoot (nodeOf (.object (n :: ms)))) := by
  have htokens := tokens?_write h
  have hparse : Node.parse? (4 * (nodeTokens .top (.object (n :: ms))).length + 4) true false
      (Feed.push (nodeTokens .top (.object (n :: ms))) ⟨[], [], Document.knownHandles⟩) =
        some (nodeOf (.object (n :: ms)), ⟨[], [], Document.knownHandles⟩) :=
    parses_of_integral h _ nofun (by omega)
  rw [nodeTokens_object .top (List.cons_ne_nil n ms), List.cons_append] at htokens hparse
  rw [Document.ofText?, htokens]
  refine ofTokens?_object _ rfl (f := ⟨[], [], Document.knownHandles⟩) ?_
  simpa [Feed.push] using hparse

end Mishap.Yaml
