import Mishap.Dictionary
import Mishap.Number.Double

/-!
# JSON values

A number is an integer of the signed or unsigned 64-bit range or a finite double. The members of
an object are kept in the order in which they are to be written; `Json.ofEntries` orders them
by name. `Json.same` is equality up to the sign of zero.
-/

namespace Mishap

/-- A JSON number. -/
inductive Number where
  | int (i : Int)
  | double (x : Double)
  deriving DecidableEq, Repr

namespace Number

/-- The integers that a JSON number can hold exactly. -/
def InRange (i : Int) : Prop := -0x8000000000000000 ≤ i ∧ i < 0x10000000000000000

instance (i : Int) : Decidable (InRange i) := inferInstanceAs (Decidable (_ ∧ _))

/-- Integers are compared as integers, doubles as doubles, and the two kinds never agree. -/
def same : Number → Number → Bool
  | .int i, .int j => i == j
  | .double x, .double y => x.same y
  | _, _ => false

end Number

/-- A JSON value. -/
inductive Json where
  | null
  | bool (b : Bool)
  | number (n : Number)
  | string (s : String)
  | array (items : List Json)
  | object (members : List (String × Json))
  deriving Inhabited, Repr

namespace Json

/-- An integer as a value. -/
def int (i : Int) : Json := .number (.int i)

/-- A natural number as a value. -/
def nat (n : Nat) : Json := .number (.int n)

/-- A double as a value; infinities and NaN have no number and become `null`. -/
def double (x : Double) : Json := if x.isFinite then .number (.double x) else .null

/-- An object with its members in order of their names; of two with one name the later stands. -/
def ofEntries (entries : List (String × Json)) : Json := .object (Dictionary.ofEntries entries)

/-- The value with its members in order of their names. -/
def byName : Json → Json
  | .object ms => ofEntries ms
  | v => v

/-- The text of a string. -/
def asString? : Json → Option String
  | .string s => some s
  | _ => none

/-- The integer, if it fits the signed 64-bit range. -/
def asInt64? : Json → Option Int
  | .number (.int i) => if i < 0x8000000000000000 then some i else none
  | _ => none

/-- The first member of that name. -/
def member? (name : String) : Json → Option Json
  | .object ms => Dictionary.get? name ms
  | _ => none

mutual

/-- Equality of values, with the two zeros equal and members compared in order. -/
def same : Json → Json → Bool
  | .null, .null => true
  | .bool a, .bool b => a == b
  | .number m, .number n => m.same n
  | .string s, .string t => s == t
  | .array xs, .array ys => sameItems xs ys
  | .object ms, .object ns => sameMembers ms ns
  | _, _ => false

/-- Equality of lists of values. -/
def sameItems : List Json → List Json → Bool
  | [], [] => true
  | x :: xs, y :: ys => same x y && sameItems xs ys
  | _, _ => false

/-- Equality of member lists. -/
def sameMembers : List (String × Json) → List (String × Json) → Bool
  | [], [] => true
  | (k, x) :: ms, (l, y) :: ns => k == l && same x y && sameMembers ms ns
  | _, _ => false

end

end Json

end Mishap
