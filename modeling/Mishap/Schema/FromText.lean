import Mishap.Json.Reader
import Mishap.Schema.Shape

/-!
# Reading shapes from JSON text

The text is read as a shape in one pass, so that of two faults the first in the text is reported.
Records may be objects, whose members stand in any order, or lists of their fields in declared
order. Members with unknown names are skipped, whatever their depth; a known name may stand only
once.
-/

namespace Mishap.Schema

open Json (Fault Reader)
open Json.Reader

namespace FromText

/-- A mismatch noticed right before the rest of the text. -/
def mismatchAt {α : Type} (m : Mismatch) (s : List Char) : Except Fault α :=
  refuseHere (.mismatch m) s

/-- A mismatch of a record that is reported behind its closing brace, if that is next. -/
def mismatchInObject {α : Type} (m : Mismatch) (s : List Char) : Except Fault α :=
  match skipSpace s with
  | '\x7d' :: t => mismatchAt m t
  | t => mismatchAt m t

/-- A mismatch of a record that is reported behind its closing bracket, if that is next. -/
def mismatchInList {α : Type} (m : Mismatch) (s : List Char) : Except Fault α :=
  match skipSpace s with
  | ']' :: t => mismatchAt m t
  | t => mismatchAt m t

/-- The text from the next token on, which has to be there. -/
def token (s : List Char) : Except Fault (List Char) :=
  match skipSpace s with
  | [] => refuseHere .endInValue []
  | t => .ok t

/-- Reports what stands in the place of a value of another kind. Scalars are read to be named. -/
def wrongKind {α : Type} (wanted : String) (s : List Char) : Except Fault α :=
  match s with
  | '[' :: _ => mismatchAt (.wrongKind .sequence wanted) s
  | '\x7b' :: _ => mismatchAt (.wrongKind .mapping wanted) s
  | _ => do
    let (v, s) ← scalar s
    mismatchAt (.wrongKind (foundIn v) wanted) s

/-- The outcome of a check on a scalar that has been read. -/
def checked (r : Except Mismatch Json) (s : List Char) : Except Fault (Json × List Char) :=
  match r with
  | .ok v => .ok (v, s)
  | .error m => mismatchAt m s

/-- A text that is checked. -/
def checkedText (wanted : String) (check : String → Except Mismatch Json) : Reader Json :=
  fun s => do
  match ← token s with
  | '"' :: t =>
    let (x, t) ← string t
    checked (check x) t
  | t => wrongKind wanted t

/-- A natural number. -/
def natural (w : Width) : Reader Json := fun s => do
  let t ← token s
  match t with
  | [] => refuseHere .endInValue []
  | c :: _ =>
    if c = '-' ∨ Text.isDigit c then
      let (n, t) ← number t
      checked (naturalOf w n) t
    else wrongKind w.wanted t

/-- A boolean. -/
def flag : Reader Json := fun s => do
  match ← token s with
  | 't' :: t => (word "rue".toList t).map fun t => (.bool true, t)
  | 'f' :: t => (word "alse".toList t).map fun t => (.bool false, t)
  | t => wrongKind "a boolean" t

/-- One of the names of a choice as the first name of an object, behind the opening brace. -/
def choiceName (c : Choice) : Reader Json := fun s => do
  match ← nextMember true s with
  | some t =>
    let (x, t) ← string t
    checked (choiceOf c x) t
  | none => refuse .expectedValue (skipSpace s)

/-- The `null` behind the name of a choice. -/
def unit (s : List Char) : Except Fault (List Char) :=
  match s with
  | 'n' :: t => word "ull".toList t
  | t => wrongKind "unit" t

/-- The end of an object that holds a choice. -/
def closeChoice (s : List Char) : Except Fault (List Char) :=
  match skipSpace s with
  | [] => refuseHere .endInObject []
  | '\x7d' :: t => .ok t
  | t => refuseHere .expectedValue t

/-- One of the names of a choice, alone or as the only name of an object that holds `null`. -/
def choice (nested : Bool) (c : Choice) : Reader Json := fun s => do
  match ← token s with
  | '"' :: t =>
    let (x, t) ← string t
    checked (choiceOf c x) t
  | '\x7b' :: t =>
    unless nested do refuse .tooDeep ('\x7b' :: t)
    let (x, t) ← choiceName c t
    let t ← unit (← token (← colon t))
    .ok (x, ← closeChoice t)
  | t => refuse .expectedValue t

/-- One member of a record, behind its name. -/
def member (one : Shape → Reader Json) (r : Record) (found : Dictionary Json) (name : String) :
    Reader (Dictionary Json) := fun s =>
  match r.field? name with
  | none => do
    let s ← skipValue (← colon s)
    .ok (found, s)
  | some f =>
    if (Dictionary.get? name found).isSome then mismatchInObject (.repeatedField name) s
    else do
      let (v, s) ← one f.shape (← colon s)
      .ok (Dictionary.insert name v found, s)

/-- The fields of a record that is written as a list, `place` fields having been read. -/
def fieldItems (one : Shape → Reader Json) (r : Record) :
    Nat → List RecordField → Reader (Dictionary Json)
  | _, [], s => .ok ([], s)
  | place, f :: fs, s => do
    match ← nextItem (place == 0) s, f.default? with
    | none, none => mismatchInList (.wrongLength place r.wantedSize) s
    | none, some _ => fieldItems one r (place + 1) fs s
    | some s, _ =>
      let (v, s) ← one f.shape s
      let (found, s) ← fieldItems one r (place + 1) fs s
      .ok (Dictionary.insert f.name v found, s)

/-- A record whose parts are read by `inner`; without it no bracket may be opened. -/
def record (inner : Option (Shape → Reader Json)) (r : Record) : Reader Json := fun s => do
  let t ← token s
  match t, inner with
  | '[' :: _, none => refuse .tooDeep t
  | '\x7b' :: _, none => refuse .tooDeep t
  | '[' :: t, some one =>
    let (found, s) ← fieldItems one r 0 r.fields t
    match Record.assemble r.fields found with
    | .error m => mismatchInList m s
    | .ok ms => .ok (.object ms, ← closeList s)
  | '\x7b' :: t, some one =>
    let (found, s) ← members (member one r) (t.length + 1) true [] t
    match Record.assemble r.fields found with
    | .error m => mismatchInObject m s
    | .ok ms => .ok (.object ms, ← closeObject s)
  | t, _ => wrongKind r.wanted t

/-- Reads a shape whose nested parts are read by `inner`; without it no bracket may be opened. -/
def readWith (depth : Nat) (inner : Option (Shape → Reader Json)) : Shape → Reader Json
  | .text => checkedText "a string" fun x => .ok (.string x)
  | .natural w => natural w
  | .flag => flag
  | .anything => value depth
  | .span => checkedText wantedSpan spanOf
  | .instant => checkedText wantedInstant instantOf
  | .choice c => choice inner.isSome c
  | .record r => record inner r
  | .optional of => fun s =>
    match skipSpace s with
    | 'n' :: t => (word "ull".toList t).map fun t => (.null, t)
    | t => readWith depth inner of t
  | .list of => fun s => do
    let t ← token s
    match t, inner with
    | '[' :: _, none => refuse .tooDeep t
    | '[' :: t, some one =>
      let (xs, s) ← items (one of) (t.length + 1) true t
      .ok (.array xs, ← closeList s)
    | t, _ => wrongKind "a sequence" t
  | .dictionary of => fun s => do
    let t ← token s
    match t, inner with
    | '\x7b' :: _, none => refuse .tooDeep t
    | '\x7b' :: t, some one =>
      let add := fun (ms : Dictionary Json) (name : String) (s : List Char) => do
        let (v, s) ← one of (← colon s)
        Except.ok (Dictionary.insert name v ms, s)
      let (ms, s) ← members add (t.length + 1) true [] t
      .ok (.object ms, ← closeObject s)
    | t, _ => wrongKind "a map" t

/-- Reads a shape with at most `depth` brackets open at once. -/
def read : Nat → Shape → Reader Json
  | 0 => readWith 0 none
  | depth + 1 => readWith (depth + 1) (some (read depth))

end FromText

/-- Reads a text that holds one value of a shape, as its canonical value. -/
def fromText (shape : Shape) (text : String) : Except Fault Json := do
  let r ← FromText.read Json.maxDepth shape text.toList
  Json.Reader.finish r

end Mishap.Schema
