import Mishap.Number.Decimal

/-!
# What a plain scalar means

A scalar without quotes stands for null, a boolean, an integer, a decimal number or a text, and this
module decides which. Integers may have a sign and one of the prefixes `0x`, `0o`, `0b`; a decimal
integer with a leading zero is a text.
-/

namespace Mishap.Yaml

/-- The meaning of a plain scalar. -/
inductive Meaning where
  | null
  | bool (b : Bool)
  | int (i : Int)
  /-- An integer of the 128-bit range that no JSON number can hold. -/
  | wide (i : Int)
  | double (x : Double)
  | text
  deriving DecidableEq, Repr

namespace Plain

/-- The number that digits of a radix denote; `none` without digits or with a foreign one. -/
def naturalIn? (radix : Nat) (s : List Char) : Option Nat :=
  if s.isEmpty then none
  else s.foldl (fun n? c => do
    let n ← n?
    let d ← Text.hexValue? c
    if d < radix then some (n * radix + d) else none) (some 0)

/-- A sign and at least two digits of which the first is a zero. -/
def hasLeadingZero (s : List Char) : Bool :=
  let digits := match s with
    | '-' :: t | '+' :: t => t
    | t => t
  match digits with
  | '0' :: c :: t => (c :: t).all Text.isDigit
  | _ => false

/-- The radix that a prefix names, and what follows it. -/
def radixOf : List Char → Option (Nat × List Char)
  | '0' :: 'x' :: s => some (16, s)
  | '0' :: 'o' :: s => some (8, s)
  | '0' :: 'b' :: s => some (2, s)
  | _ => none

/-- A natural number, with or without a plus sign. -/
def natural? (s : List Char) : Option Nat :=
  let bare := match s with
    | '+' :: t => t
    | t => t
  match radixOf bare with
  | some (radix, digits) => naturalIn? radix digits
  | none => if hasLeadingZero s then none else naturalIn? 10 bare

/-- A number after its minus sign. -/
def negative? (s : List Char) : Option Nat :=
  match s with
  | '-' :: t =>
    match radixOf t with
    | some (radix, digits) => naturalIn? radix digits
    | none => if hasLeadingZero s then none else naturalIn? 10 t
  | _ => none

/-- An integer. -/
def integer? (s : List Char) : Option Int :=
  match natural? s with
  | some n => some n
  | none => (negative? s).map fun n => -(n : Int)

/-- The null words. -/
def isNull (s : List Char) : Bool :=
  ["", "null", "Null", "NULL", "~"].any (·.toList == s)

/-- The boolean words. -/
def bool? (s : List Char) : Option Bool :=
  if ["true", "True", "TRUE"].any (·.toList == s) then some true
  else if ["false", "False", "FALSE"].any (·.toList == s) then some false
  else none

/-- A finite decimal number without its sign. -/
def magnitude? (s : List Char) : Option Double := (Double.ofUnsignedText? s).filter Double.isFinite

/-- The texts of infinity after its sign. -/
def isInfinity (s : List Char) : Bool := [".inf", ".Inf", ".INF"].any (·.toList == s)

/-- A floating-point number; infinities and NaN have words of their own. -/
def double? (s : List Char) : Option Double :=
  if [".nan", ".NaN", ".NAN"].any (·.toList == s) then some Double.nan
  else match s with
    | '-' :: t =>
      if isInfinity t then some Double.infinity.negate else (magnitude? t).map Double.negate
    | '+' :: t => if isInfinity t then some Double.infinity else magnitude? t
    | t => if isInfinity t then some Double.infinity else magnitude? t

/-- Integers that a JSON number holds, wider ones, and those too wide to be read as integers. -/
def meaningOfInt (i : Int) : Meaning :=
  if -0x8000000000000000 ≤ i ∧ i < 0x10000000000000000 then .int i else .wide i

/-- The meaning of a plain scalar. -/
def meaning (s : List Char) : Meaning :=
  if isNull s then .null
  else match bool? s with
    | some b => .bool b
    | none =>
      match integer? s with
      | some i =>
        if -0x80000000000000000000000000000000 ≤ i ∧ i < 0x100000000000000000000000000000000 then
          meaningOfInt i
        else fractional s
      | none => fractional s
where
  /-- A scalar that is no integer. -/
  fractional (s : List Char) : Meaning :=
    if hasLeadingZero s then .text
    else match double? s with
      | some x => .double x
      | none => .text

end Plain

end Mishap.Yaml
