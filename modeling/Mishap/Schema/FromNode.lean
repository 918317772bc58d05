import Mishap.Schema.Shape
import Mishap.Yaml.Node
import Mishap.Yaml.Plain

/-!
# Reading shapes from YAML

A tree is read as a shape. Texts are taken from scalars of any style and any tag, whatever they
would mean on their own; numbers and booleans have to be plain. A record is an object of its fields
and never a list of them. An empty place is an empty list, an object without entries and a record of
which every field is left out. References are followed, in all at most a hundred times as often as
the text has events.
-/

namespace Mishap.Schema

open Yaml (Node Document ScalarStyle)

namespace FromNode

/-- A reader of a node. Its state is the number of references followed so far. -/
abbrev Reader (α : Type) := Node → Nat → Option (α × Nat)

/-- The node behind a reference, or the node itself. -/
def follow? (d : Document) (n : Node) (jumps : Nat) : Option (Node × Nat) :=
  match n with
  | .reference a =>
    if d.events * 100 < jumps + 1 then none else (d.target? a).map fun n => (n, jumps + 1)
  | n => some (n, jumps)

/-- The tags of the standard schema. -/
def standardTag (name : String) : List UInt8 := ("tag:yaml.org,2002:" ++ name).toUTF8.toList

/-- The name of a tag that is local to the text: what stands behind its mark, or the mark where
nothing does. A tag whose bytes are no text has no name. -/
def localTag? (tag? : Option (List UInt8)) : Option String :=
  match tag? with
  | some (mark :: name) =>
    if mark = '!'.toUInt8 then
      String.fromUTF8? ⟨(if name.isEmpty then [mark] else name).toArray⟩
    else none
  | _ => none

/-- The text of a scalar. -/
def scalarText? : Node → Option String
  | .scalar _ _ _ text => some (String.ofList text)
  | _ => none

/-- The text of a scalar that may stand for a number or a boolean of the standard tag. -/
def literal? (tag : String) : Node → Option (List Char)
  | .scalar _ _ .plain text => some text
  | .scalar _ (some t) .literal text => if t = standardTag tag then some text else none
  | _ => none

/-- Nothing is written in the place. -/
def isBlank : Node → Bool
  | .scalar _ _ .plain [] => true
  | _ => false

/-- The value of an integer that a JSON number can hold. -/
def numberOf? : Yaml.Meaning → Option Json
  | .int i => some (.int i)
  | _ => none

/-- The value of a plain scalar without a tag. -/
def plainValue? (text : List Char) : Option Json :=
  match Yaml.Plain.meaning text with
  | .null => some .null
  | .bool b => some (.bool b)
  | .int i => some (.int i)
  | .wide _ => none
  | .double x => some (.double x)
  | .text => some (.string (String.ofList text))

/-- The value of a scalar whose tag does not fix it. -/
def untaggedValue? (style : ScalarStyle) (text : List Char) : Option Json :=
  if style = .plain then plainValue? text else some (.string (String.ofList text))

/-- The tag begins with the mark of local tags. -/
def isLocal (tag : List UInt8) : Bool := tag.head? == some '!'.toUInt8

/-- The value of a scalar. A standard tag fixes what the text has to be, a local one with a name is
refused and one without a name is passed over; under any other tag a scalar is a text. -/
def scalarValue? (tag? : Option (List UInt8)) (style : ScalarStyle) (text : List Char) :
    Option Json :=
  match tag? with
  | none => untaggedValue? style text
  | some t =>
    if t = standardTag "bool" then (Yaml.Plain.bool? text).map .bool
    else if t = standardTag "int" then
      (Yaml.Plain.integer? text).bind fun i => numberOf? (Yaml.Plain.meaningOfInt i)
    else if t = standardTag "float" then (Yaml.Plain.double? text).map .double
    else if t = standardTag "null" then
      if !text.isEmpty && Yaml.Plain.isNull text then some .null else none
    else if (localTag? (some t)).isSome then none
    else if isLocal t then untaggedValue? style text
    else some (.string (String.ofList text))

/-- Reads nodes in turn. -/
def items (one : Reader Json) : List Node → Nat → Option (List Json × Nat)
  | [], jumps => some ([], jumps)
  | x :: xs, jumps => do
    let (v, jumps) ← one x jumps
    let (vs, jumps) ← items one xs jumps
    some (v :: vs, jumps)

/-- The text of a key. -/
def key? (d : Document) (k : Node) (jumps : Nat) : Option (String × Nat) := do
  let (k, jumps) ← follow? d k jumps
  let name ← scalarText? k
  some (name, jumps)

/-- Reads entries in turn; of two with one key the later stands. -/
def entries (d : Document) (one : Reader Json) :
    List (Node × Node) → Dictionary Json → Nat → Option (Dictionary Json × Nat)
  | [], found, jumps => some (found, jumps)
  | (k, x) :: es, found, jumps => do
    let (name, jumps) ← key? d k jumps
    let (v, jumps) ← one x jumps
    entries d one es (Dictionary.insert name v found) jumps

/-- Reads the entries of a record in turn. -/
def fieldEntries (d : Document) (one : Shape → Reader Json) (r : Record) :
    List (Node × Node) → Dictionary Json → Nat → Option (Dictionary Json × Nat)
  | [], found, jumps => some (found, jumps)
  | (k, x) :: es, found, jumps => do
    let (name, jumps) ← key? d k jumps
    match r.field? name with
    | none => fieldEntries d one r es found jumps
    | some f =>
      if (Dictionary.get? name found).isSome then none
      else
        let (v, jumps) ← one f.shape x jumps
        fieldEntries d one r es (Dictionary.insert name v found) jumps

/-- The canonical value of a record. -/
def assembled? (r : Record) (found : Dictionary Json) : Option Json :=
  match Record.assemble r.fields found with
  | .ok ms => some (.object ms)
  | .error _ => none

/-- The outcome of a check on a text. -/
def checked? (r : Except Mismatch Json) (jumps : Nat) : Option (Json × Nat) :=
  match r with
  | .ok v => some (v, jumps)
  | .error _ => none

/-- A place that stands for nothing where a value may be left out. A standard null tag allows
nothing else. -/
def isAbsent? : Node → Option Bool
  | .scalar _ tag? .plain text =>
    match tag? with
    | none => some (Yaml.Plain.isNull text)
    | some t =>
      if t = standardTag "null" then
        if !text.isEmpty && Yaml.Plain.isNull text then some true else none
      else some false
  | _ => some false

/-- One of the names of a choice: as a text, or as the local tag of an empty place. -/
def choice? (c : Choice) (n : Node) (jumps : Nat) : Option (Json × Nat) :=
  match n with
  | .scalar _ tag? style text =>
    match localTag? tag? with
    | some name =>
      if style = .plain ∧ Yaml.Plain.isNull text then
        checked? (choiceOf c name) jumps
      else none
    | none => checked? (choiceOf c (String.ofList text)) jumps
  | _ => none

/-- A value of any kind, the parts of lists and objects being read by `inner`. -/
def anyWith (d : Document) (inner : Option (Reader Json)) : Reader Json := fun n jumps => do
  let (n, jumps) ← follow? d n jumps
  match n, inner with
  | .scalar _ tag? style text, _ =>
    let v ← scalarValue? tag? style text
    some (v, jumps)
  | .list _ tag? xs, some one =>
    if (localTag? tag?).isSome then none
    else
      let (vs, jumps) ← items one xs jumps
      some (.array vs, jumps)
  | .object _ tag? es, some one =>
    if (localTag? tag?).isSome then none
    else
      let (ms, jumps) ← entries d one es [] jumps
      some (.object ms, jumps)
  | _, _ => none

/-- A value of any kind with at most `depth` lists and objects inside one another. -/
def anything (d : Document) : Nat → Reader Json
  | 0 => anyWith d none
  | depth + 1 => anyWith d (some (anything d depth))

/-- Reads a shape whose nested parts are read by `inner`; without it nothing may be nested. -/
def readWith (d : Document) (depth : Nat) (inner : Option (Shape → Reader Json)) :
    Shape → Reader Json
  | .text => fun n jumps => do
    let (n, jumps) ← follow? d n jumps
    some (.string (← scalarText? n), jumps)
  | .natural w => fun n jumps => do
    let (n, jumps) ← follow? d n jumps
    let i ← Yaml.Plain.natural? (← literal? "int" n)
    checked? (naturalOf w (.int i)) jumps
  | .flag => fun n jumps => do
    let (n, jumps) ← follow? d n jumps
    let b ← Yaml.Plain.bool? (← literal? "bool" n)
    some (.bool b, jumps)
  | .anything => anything d depth
  | .span => fun n jumps => do
    let (n, jumps) ← follow? d n jumps
    checked? (spanOf (← scalarText? n)) jumps
  | .instant => fun n jumps => do
    let (n, jumps) ← follow? d n jumps
    checked? (instantOf (← scalarText? n)) jumps
  | .choice c => fun n jumps => do
    let (n, jumps) ← follow? d n jumps
    choice? c n jumps
  | .record r => fun n jumps => do
    let (n, jumps) ← follow? d n jumps
    match n, inner with
    | .object _ _ es, some one =>
      let (found, jumps) ← fieldEntries d one r es [] jumps
      some (← assembled? r found, jumps)
    | n, _ => if isBlank n then some (← assembled? r [], jumps) else none
  | .optional of => fun n jumps => do
    let (n, jumps) ← follow? d n jumps
    if ← isAbsent? n then some (.null, jumps) else readWith d depth inner of n jumps
  | .list of => fun n jumps => do
    let (n, jumps) ← follow? d n jumps
    match n, inner with
    | .list _ _ xs, some one =>
      let (vs, jumps) ← items (one of) xs jumps
      some (.array vs, jumps)
    | n, _ => if isBlank n then some (.array [], jumps) else none
  | .dictionary of => fun n jumps => do
    let (n, jumps) ← follow? d n jumps
    match n, inner with
    | .object _ _ es, some one =>
      let (ms, jumps) ← entries d (one of) es [] jumps
      some (.object ms, jumps)
    | n, _ => if isBlank n then some (.object [], jumps) else none

/-- Reads a shape with at most `depth` lists and objects inside one another. -/
def read (d : Document) : Nat → Shape → Reader Json
  | 0 => readWith d 0 none
  | depth + 1 => readWith d (depth + 1) (some (read d depth))

/-- A shape of which nothing is written. -/
def missing? : Shape → Option Json
  | .anything => some .null
  | .optional _ => some .null
  | .list _ => some (.array [])
  | .dictionary _ => some (.object [])
  | .record r => assembled? r []
  | _ => none

end FromNode

/-- The number of lists and objects that YAML text may have inside one another. -/
def maxNesting : Nat := 128

/-- Reads YAML text that holds one value of a shape, as its canonical value. -/
def fromYaml? (shape : Shape) (text : String) : Option Json := do
  let d ← Document.ofText? text
  match d.root? with
  | none => FromNode.missing? shape
  | some n => (FromNode.read d maxNesting shape n 0).map (·.1)

end Mishap.Schema
