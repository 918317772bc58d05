/-!
# Binary double-precision numbers

A `Double` is the 64-bit interchange word: sign, eleven exponent bits, fifty-two fraction bits.
The operations work on exact natural-number ratios and round once, to nearest with ties to even,
so that every result is determined by integer arithmetic.
-/

namespace Mishap

/-- The interchange word of a binary double-precision number. -/
structure Double where
  bits : UInt64
  deriving DecidableEq, Repr, Inhabited

namespace Double

/-- The sign bit is set. -/
def isNegative (x : Double) : Bool := x.bits.toNat / 0x8000000000000000 % 2 == 1

/-- The biased exponent field. -/
def exponentField (x : Double) : Nat := x.bits.toNat / 0x10000000000000 % 0x800

/-- The fraction field. -/
def fractionField (x : Double) : Nat := x.bits.toNat % 0x10000000000000

/-- Neither an infinity nor a NaN. -/
def isFinite (x : Double) : Bool := x.exponentField != 2047

/-- The magnitude is zero. -/
def isZero (x : Double) : Bool := x.bits.toNat % 0x8000000000000000 == 0

/-- The integer significand of a finite number: its magnitude is `significand * 2 ^ scale`. -/
def significand (x : Double) : Nat :=
  if x.exponentField = 0 then x.fractionField else 0x10000000000000 + x.fractionField

/-- The power of two by which the significand counts. -/
def scale (x : Double) : Int :=
  if x.exponentField = 0 then -1074 else (x.exponentField : Int) - 1075

/-- Positive and negative zero, infinity and the quiet NaN. -/
def zero : Double := ⟨0⟩
def infinity : Double := ⟨0x7FF0000000000000⟩
def nan : Double := ⟨0x7FF8000000000000⟩

/-- The number with the other sign. -/
def negate (x : Double) : Double := ⟨x.bits ^^^ 0x8000000000000000⟩

/-- The number without its sign. -/
def magnitude (x : Double) : Double := if x.isNegative then x.negate else x

/-- Gives the magnitude the sign asked for. -/
def signed (negative : Bool) (x : Double) : Double := if negative then x.negate else x

/-- The magnitude of a finite number as a numerator and a denominator. -/
def ratio (x : Double) : Nat × Nat :=
  if 0 ≤ x.scale then (x.significand * Nat.pow 2 x.scale.toNat, 1)
  else (x.significand, Nat.pow 2 (-x.scale).toNat)

/-- The quotient rounded to the nearest integer, a half to the even neighbour. -/
def divideEven (num den : Nat) : Nat :=
  let q := num / den
  let r := num % den
  if 2 * r < den then q
  else if den < 2 * r then q + 1
  else q + q % 2

/-- The exponent `e` with `2 ^ e ≤ num / den < 2 ^ (e + 1)`, for positive arguments. -/
def binaryExponent (num den : Nat) : Int :=
  let a := Nat.log2 num
  let b := Nat.log2 den
  let reaches := if b ≤ a then den * Nat.pow 2 (a - b) ≤ num else den ≤ num * Nat.pow 2 (b - a)
  if reaches then (a : Int) - b else (a : Int) - b - 1

/-- The nearest double to `num / den`: subnormals at the small end, infinity past the large one. -/
def ofRatio (num den : Nat) : Double :=
  if num = 0 ∨ den = 0 then zero
  else
    let e := max (binaryExponent num den - 52) (-1074)
    let m :=
      if 0 ≤ e then divideEven num (den * Nat.pow 2 e.toNat)
      else divideEven (num * Nat.pow 2 (-e).toNat) den
    let word := (e + 1074).toNat * 0x10000000000000 + m
    if 2047 * 0x10000000000000 ≤ word then infinity else ⟨UInt64.ofNat word⟩

/-- The nearest double to a natural number. -/
def ofNat (n : Nat) : Double := ofRatio n 1

/-- Product of two finite numbers, rounded once. -/
def multiply (x y : Double) : Double :=
  let (a, b) := x.ratio
  let (c, d) := y.ratio
  signed (x.isNegative != y.isNegative) (ofRatio (a * c) (b * d))

/-- Quotient of a finite number by a finite non-zero one, rounded once. -/
def divide (x y : Double) : Double :=
  let (a, b) := x.ratio
  let (c, d) := y.ratio
  signed (x.isNegative != y.isNegative) (ofRatio (a * d) (b * c))

/-- Numeric equality of finite numbers: the two zeros are equal. -/
def same (x y : Double) : Bool :=
  x.isFinite && y.isFinite && (x.bits == y.bits || (x.isZero && y.isZero))

/-- A decimal `digits * 10 ^ exponent`, correctly rounded. -/
def ofDecimal (digits : Nat) (exponent : Int) : Double :=
  if 0 ≤ exponent then ofRatio (digits * Nat.pow 10 exponent.toNat) 1
  else ofRatio digits (Nat.pow 10 (-exponent).toNat)

end Double

end Mishap
