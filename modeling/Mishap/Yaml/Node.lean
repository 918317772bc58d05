import Mishap.Yaml.Lexer

/-!
# Trees of YAML text

The tokens of a text are put together to one tree. Anchors are numbered in the order in which they
appear; an anchor gets as its number the count of the distinct names seen before it, so a name
that appears again takes the number that the next new name would have. A reference holds the number
that its name had at its place, and stands for the last node that was given this number.
-/

namespace Mishap.Yaml

/-- A node of a tree. -/
inductive Node where
  | reference (anchor : Nat)
  | scalar (anchor? : Option Nat) (tag? : Option (List UInt8)) (style : ScalarStyle)
      (text : List Char)
  | list (anchor? : Option Nat) (tag? : Option (List UInt8)) (items : List Node)
  | object (anchor? : Option Nat) (tag? : Option (List UInt8)) (entries : List (Node × Node))
  deriving Inhabited, Repr

namespace Node

/-- What stands where nothing is written. -/
def empty : Node := .scalar none none .plain []

/-- The tokens that are left, with the anchors and the tag handles known so far. -/
structure Feed where
  tokens : List Token
  anchors : List (List Char × Nat)
  handles : List (List Char × List UInt8)

namespace Feed

/-- Passes a token. -/
def next (f : Feed) : Feed := { f with tokens := f.tokens.drop 1 }

/-- The next token is one of these. -/
def sees (ts : List Token) (f : Feed) : Bool :=
  match f.tokens with
  | t :: _ => ts.elem t
  | [] => false

/-- Gives an anchor its number. -/
def declare (name : List Char) (f : Feed) : Nat × Feed :=
  let n := f.anchors.length
  (n, { f with anchors := (name, n) :: f.anchors.filter (·.1 != name) })

/-- The whole tag of a handle and a suffix. -/
def wholeTag? (handle : List Char) (suffix : List UInt8) (f : Feed) : Option (List UInt8) :=
  if handle.isEmpty then some suffix else (f.handles.lookup handle).map (· ++ suffix)

/-- A tag, if one is next. -/
def tag? (f : Feed) : Option (Option (List UInt8) × Feed) :=
  match f.tokens with
  | .tag handle suffix :: _ => do
    let t ← f.wholeTag? handle suffix
    some (some t, f.next)
  | _ => some (none, f)

/-- An anchor, if one is next. -/
def anchor? (f : Feed) : Option (List Char) × Feed :=
  match f.tokens with
  | .anchor name :: _ => (some name, f.next)
  | _ => (none, f)

/-- An anchor and a tag in either order, each if it is there. -/
def properties? (f : Feed) : Option (Option (List Char) × Option (List UInt8) × Feed) :=
  match f.tokens with
  | .tag _ _ :: _ => do
    let (t, f) ← f.tag?
    let (a, f) := f.anchor?
    some (a, t, f)
  | _ => do
    let (a, f) := f.anchor?
    let (t, f) ← f.tag?
    some (a, t, f)

/-- Numbers an anchor, if there is one. -/
def declare? (a : Option (List Char)) (f : Feed) : Option Nat × Feed :=
  match a with
  | some name => let (n, f) := f.declare name; (some n, f)
  | none => (none, f)

end Feed

mutual

/-- A node. Blocks are allowed outside brackets, and under a key a list may begin without deeper
indentation. Each call takes a token or is made by one that does, so four times the number of
tokens is fuel enough. -/
def parse? : Nat → Bool → Bool → Feed → Option (Node × Feed)
  | 0, _, _, _ => none
  | fuel + 1, block, indentless, f =>
    match f.tokens with
    | .reference name :: _ => do
      let n ← f.anchors.lookup name
      some (.reference n, f.next)
    | _ => do
      let (name?, tag?, f) ← f.properties?
      let (a, f) := f.declare? name?
      match f.tokens, block, indentless with
      | .blockItem :: _, _, true =>
        let (xs, f) ← indentlessItems? fuel f
        some (.list a tag? xs, f)
      | .scalar style text :: _, _, _ =>
        some (.scalar a tag? style text, f.next)
      | .flowListStart :: _, _, _ =>
        let (xs, f) ← flowItems? fuel true f.next
        some (.list a tag? xs, f)
      | .flowObjectStart :: _, _, _ =>
        let (es, f) ← flowEntries? fuel true f.next
        some (.object a tag? es, f)
      | .blockListStart :: _, true, _ =>
        let (xs, f) ← blockItems? fuel f.next
        some (.list a tag? xs, f)
      | .blockObjectStart :: _, true, _ =>
        let (es, f) ← blockEntries? fuel f.next
        some (.object a tag? es, f)
      | _, _, _ => if name?.isSome || tag?.isSome then some (.scalar a tag? .plain [], f) else none

/-- A node, or the empty one before a token that ends its place. -/
def parseUnless? : Nat → List Token → Bool → Bool → Feed → Option (Node × Feed)
  | 0, _, _, _, _ => none
  | fuel + 1, ends, block, indentless, f =>
    if f.sees ends then some (empty, f) else parse? fuel block indentless f

/-- The items of a block list. -/
def blockItems? : Nat → Feed → Option (List Node × Feed)
  | 0, _ => none
  | fuel + 1, f =>
    match f.tokens with
    | .blockItem :: _ => do
      let (x, f) ← parseUnless? fuel [.blockItem, .blockEnd] true false f.next
      let (xs, f) ← blockItems? fuel f
      some (x :: xs, f)
    | .blockEnd :: _ => some ([], f.next)
    | _ => none

/-- The items of a list that is not indented deeper than its key. -/
def indentlessItems? : Nat → Feed → Option (List Node × Feed)
  | 0, _ => none
  | fuel + 1, f =>
    match f.tokens with
    | .blockItem :: _ => do
      let (x, f) ← parseUnless? fuel [.blockItem, .key, .value, .blockEnd] true false f.next
      let (xs, f) ← indentlessItems? fuel f
      some (x :: xs, f)
    | _ => some ([], f)

/-- The entries of a block object. -/
def blockEntries? : Nat → Feed → Option (List (Node × Node) × Feed)
  | 0, _ => none
  | fuel + 1, f =>
    match f.tokens with
    | .key :: _ => do
      let (k, f) ← parseUnless? fuel [.key, .value, .blockEnd] true true f.next
      let (v, f) ←
        match f.tokens with
        | .value :: _ => parseUnless? fuel [.key, .value, .blockEnd] true true f.next
        | _ => some (empty, f)
      let (es, f) ← blockEntries? fuel f
      some ((k, v) :: es, f)
    | .blockEnd :: _ => some ([], f.next)
    | _ => none

/-- The items of a list in brackets. An item may be a single entry. -/
def flowItems? : Nat → Bool → Feed → Option (List Node × Feed)
  | 0, _, _ => none
  | fuel + 1, first, f =>
    if f.sees [.flowListEnd] then some ([], f.next)
    else if !first && !f.sees [.flowNext] then none
    else
      let f := if first then f else f.next
      match f.tokens with
      | .flowListEnd :: _ => some ([], f.next)
      | .key :: _ => do
        let (e, f) ← singleEntry? fuel f.next
        let (xs, f) ← flowItems? fuel false f
        some (.object none none [e] :: xs, f)
      | _ => do
        let (x, f) ← parse? fuel false false f
        let (xs, f) ← flowItems? fuel false f
        some (x :: xs, f)

/-- The one entry of an object that is an item of a list in brackets. Where its key is left out, the
token that would end it is passed as well. -/
def singleEntry? : Nat → Feed → Option ((Node × Node) × Feed)
  | 0, _ => none
  | fuel + 1, f => do
    let (k, f) ←
      if f.sees [.value, .flowNext, .flowListEnd] then some (empty, f.next)
      else parse? fuel false false f
    match f.tokens with
    | .value :: _ =>
      let (v, f) ← parseUnless? fuel [.flowNext, .flowListEnd] false false f.next
      some ((k, v), f)
    | _ => some ((k, empty), f)

/-- The entries of an object in braces. -/
def flowEntries? : Nat → Bool → Feed → Option (List (Node × Node) × Feed)
  | 0, _, _ => none
  | fuel + 1, first, f =>
    if f.sees [.flowObjectEnd] then some ([], f.next)
    else if !first && !f.sees [.flowNext] then none
    else
      let f := if first then f else f.next
      match f.tokens with
      | .flowObjectEnd :: _ => some ([], f.next)
      | .key :: _ => do
        let (k, f) ← parseUnless? fuel [.value, .flowNext, .flowObjectEnd] false false f.next
        let (v, f) ←
          match f.tokens with
          | .value :: _ => parseUnless? fuel [.flowNext, .flowObjectEnd] false false f.next
          | _ => some (empty, f)
        let (es, f) ← flowEntries? fuel false f
        some ((k, v) :: es, f)
      | _ => do
        let (k, f) ← parse? fuel false false f
        let (es, f) ← flowEntries? fuel false f
        some ((k, empty) :: es, f)

end

mutual

/-- The number of events that a node stands for: one for each scalar and reference, two for the
ends of each list and object. -/
def events : Node → Nat
  | .reference _ => 1
  | .scalar _ _ _ _ => 1
  | .list _ _ xs => eventsItems xs + 2
  | .object _ _ es => eventsEntries es + 2

/-- The events of items. -/
def eventsItems : List Node → Nat
  | [] => 0
  | x :: xs => events x + eventsItems xs

/-- The events of entries. -/
def eventsEntries : List (Node × Node) → Nat
  | [] => 0
  | (k, v) :: es => events k + events v + eventsEntries es

end

mutual

/-- The numbered nodes of a tree in the order of their anchors. -/
def anchored : Node → List (Nat × Node)
  | .reference _ => []
  | .scalar a t style text => a.toList.map fun n => (n, .scalar a t style text)
  | .list a t xs => (a.toList.map fun n => (n, .list a t xs)) ++ anchoredItems xs
  | .object a t es => (a.toList.map fun n => (n, .object a t es)) ++ anchoredEntries es

/-- The numbered nodes of items. -/
def anchoredItems : List Node → List (Nat × Node)
  | [] => []
  | x :: xs => anchored x ++ anchoredItems xs

/-- The numbered nodes of entries. -/
def anchoredEntries : List (Node × Node) → List (Nat × Node)
  | [] => []
  | (k, v) :: es => anchored k ++ anchored v ++ anchoredEntries es

end

end Node

/-- One document. A text that holds none stands for an empty place. -/
structure Document where
  root? : Option Node
  /-- The numbered nodes, those of the last anchors first. -/
  targets : List (Nat × Node)
  events : Nat

namespace Document

/-- The handles that need no directive. -/
def knownHandles : List (List Char × List UInt8) :=
  [(['!'], "!".toUTF8.toList), (['!', '!'], "tag:yaml.org,2002:".toUTF8.toList)]

/-- The directives before a document: at most one version, which is 1.1 or 1.2, and handles, each
declared once. -/
def directives? : Bool → List (List Char × List UInt8) → List Token →
    Option (List (List Char × List UInt8) × List Token)
  | versioned, handles, .version major minor :: ts =>
    if versioned || major != 1 || !(minor == 1 || minor == 2) then none
    else directives? true handles ts
  | versioned, handles, .handle h uri :: ts =>
    if (handles.lookup h).isSome then none else directives? versioned ((h, uri) :: handles) ts
  | _, handles, ts => some (handles, ts)

/-- The document of a root node. -/
def ofRoot (root : Node) : Document :=
  { root? := some root, targets := root.anchored.reverse, events := root.events }

/-- The tokens that end a document with no content of its own. -/
def endsContent : List Token → Bool
  | [] => true
  | .version _ _ :: _ | .handle _ _ :: _ | .documentStart :: _ | .documentEnd :: _ => true
  | _ => false

/-- Only the ends of documents may follow the first document. -/
def onlyEnds (ts : List Token) : Bool := ts.all (· == .documentEnd)

/-- The one document of a text. -/
def ofTokens? (ts : List Token) : Option Document := do
  match ts with
  | [] => some { root? := none, targets := [], events := 1 }
  | ts =>
    let (handles, rest) ← directives? false [] ts
    let declared := !handles.isEmpty || rest.length != ts.length
    let known := handles ++ knownHandles.filter fun k => (handles.lookup k.1).isNone
    let feed := fun ts => { tokens := ts, anchors := [], handles := known : Node.Feed }
    match rest, declared with
    | .documentStart :: rest, _ =>
      if endsContent rest then
        if onlyEnds rest then some (ofRoot Node.empty) else none
      else
        let (root, f) ← Node.parse? (4 * rest.length + 4) true false (feed rest)
        if onlyEnds f.tokens then some (ofRoot root) else none
    | _, true => none
    | rest, false =>
      let (root, f) ← Node.parse? (4 * rest.length + 4) true false (feed rest)
      if onlyEnds f.tokens then some (ofRoot root) else none

/-- The document of a text, if it holds at most one. -/
def ofText? (text : String) : Option Document := do
  let ts ← tokens? text.toList
  ofTokens? ts

/-- The node that a reference stands for. -/
def target? (d : Document) (anchor : Nat) : Option Node := d.targets.lookup anchor

end Document

end Mishap.Yaml
