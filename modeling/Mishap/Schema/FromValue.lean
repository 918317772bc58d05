import Mishap.Schema.Shape

/-!
# Reading shapes from JSON values

A value that is already in memory is read as a shape without positions in its messages. Records may
be objects or lists of their fields in declared order.
-/

namespace Mishap.Schema

namespace FromValue

/-- The items of a list, each read in turn. -/
def items (one : Json → Except Mismatch Json) : List Json → Except Mismatch (List Json)
  | [] => .ok []
  | x :: xs => do
    let v ← one x
    let vs ← items one xs
    .ok (v :: vs)

/-- The members of an object, each read in turn. -/
def members (one : Json → Except Mismatch Json) :
    List (String × Json) → Except Mismatch (List (String × Json))
  | [] => .ok []
  | (k, x) :: ms => do
    let v ← one x
    let vs ← members one ms
    .ok ((k, v) :: vs)

/-- The fields of a record from the members of an object, in the order of the object. -/
def recordMembers (one : Shape → Json → Except Mismatch Json) (r : Record) :
    List (String × Json) → Dictionary Json → Except Mismatch (Dictionary Json)
  | [], found => .ok found
  | (k, x) :: ms, found =>
    match r.field? k with
    | none => recordMembers one r ms found
    | some f => do
      if (Dictionary.get? k found).isSome then .error (.repeatedField k)
      let v ← one f.shape x
      recordMembers one r ms (Dictionary.insert k v found)

/-- The fields of a record from a list, `place` fields having been read. -/
def recordItems (one : Shape → Json → Except Mismatch Json) (r : Record) :
    Nat → List RecordField → List Json → Except Mismatch (Dictionary Json × List Json)
  | _, [], rest => .ok ([], rest)
  | place, f :: fs, [] =>
    match f.default? with
    | none => .error (.wrongLength place r.wantedSize)
    | some _ => recordItems one r (place + 1) fs []
  | place, f :: fs, x :: xs => do
    let v ← one f.shape x
    let (found, rest) ← recordItems one r (place + 1) fs xs
    .ok (Dictionary.insert f.name v found, rest)

/-- Reads a shape whose records are read by `inner`. -/
def readWith (inner : Record → Json → Except Mismatch Json) : Shape → Json → Except Mismatch Json
  | .text, .string s => .ok (.string s)
  | .text, v => .error (.wrongKind (foundIn v) "a string")
  | .natural w, .number n => naturalOf w n
  | .natural w, v => .error (.wrongKind (foundIn v) w.wanted)
  | .flag, .bool b => .ok (.bool b)
  | .flag, v => .error (.wrongKind (foundIn v) "a boolean")
  | .anything, v => .ok v
  | .span, .string s => spanOf s
  | .span, v => .error (.wrongKind (foundIn v) wantedSpan)
  | .instant, .string s => instantOf s
  | .instant, v => .error (.wrongKind (foundIn v) wantedInstant)
  | .choice c, .string s => choiceOf c s
  | .choice c, .object [(k, v)] => do
    let s ← choiceOf c k
    match v with
    | .null => .ok s
    | v => .error (.wrongKind (foundIn v) "unit")
  | .choice _, .object _ => .error (.wrongValue .mapping "map with a single key")
  | .choice _, v => .error (.wrongKind (foundIn v) "string or map")
  | .record r, v => inner r v
  | .optional _, .null => .ok .null
  | .optional s, v => readWith inner s v
  | .list s, .array xs => do
    let vs ← items (readWith inner s) xs
    .ok (.array vs)
  | .list _, v => .error (.wrongKind (foundIn v) "a sequence")
  | .dictionary s, .object ms => do
    let vs ← members (readWith inner s) ms
    .ok (.object (Dictionary.ofEntries vs))
  | .dictionary _, v => .error (.wrongKind (foundIn v) "a map")

/-- Reads a record whose parts are read by `one`. -/
def record (one : Shape → Json → Except Mismatch Json) (r : Record) (v : Json) :
    Except Mismatch Json := do
  match v with
  | .object ms =>
    let found ← recordMembers one r ms []
    let members ← Record.assemble r.fields found
    .ok (.object members)
  | .array xs =>
    let (found, rest) ← recordItems one r 0 r.fields xs
    let members ← Record.assemble r.fields found
    if rest.isEmpty then .ok (.object members)
    else .error (.wrongLength xs.length "fewer elements in array")
  | v => .error (.wrongKind (foundIn v) r.wanted)

/-- Reads with at most a number of records inside one another. -/
def read : Nat → Shape → Json → Except Mismatch Json
  | 0 => readWith fun r v => .error (.wrongKind (foundIn v) r.wanted)
  | depth + 1 => readWith (record (read depth))

end FromValue

mutual

/-- The number of lists and objects inside one another in a value. -/
def nesting : Json → Nat
  | .array xs => nestingItems xs + 1
  | .object ms => nestingMembers ms + 1
  | _ => 0

/-- The deepest nesting among items. -/
def nestingItems : List Json → Nat
  | [] => 0
  | x :: xs => max (nesting x) (nestingItems xs)

/-- The deepest nesting among members. -/
def nestingMembers : List (String × Json) → Nat
  | [] => 0
  | (_, x) :: ms => max (nesting x) (nestingMembers ms)

end

/-- The canonical value of a shape. -/
def fromValue (s : Shape) (v : Json) : Except Mismatch Json := FromValue.read (nesting v + 1) s v

end Mishap.Schema
