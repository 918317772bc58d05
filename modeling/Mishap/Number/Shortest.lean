import Mishap.Number.Double

/-!
# The shortest decimal that reads back

`Double.shortest` finds, for a positive finite number, the decimal with the fewest digits that
rounds back to it; among equally short ones the nearest, and on an exact tie the one whose last
digit is even. `FloatStyle.write` lays such a decimal out as text.
-/

namespace Mishap

/-- A positive decimal `digits * 10 ^ exponent`. -/
structure Decimal where
  digits : Nat
  exponent : Int
  deriving DecidableEq, Repr

/-- The open or closed interval of ratios over one denominator that round to one number. -/
structure RoundingInterval where
  low : Nat
  value : Nat
  high : Nat
  den : Nat
  closed : Bool

namespace RoundingInterval

/-- Membership of `num / den` in the interval. -/
def contains (i : RoundingInterval) (num den : Nat) : Bool :=
  if i.closed then i.low * den ≤ num * i.den && num * i.den ≤ i.high * den
  else i.low * den < num * i.den && num * i.den < i.high * den

end RoundingInterval

namespace Double

/-- The interval of ratios that round to a positive finite number. The gap below a power of two
is half the gap above it; the ends belong to the interval when the significand is even. -/
def roundingInterval (x : Double) : RoundingInterval :=
  let m := x.significand
  let lowered := if x.fractionField = 0 ∧ 1 < x.exponentField then 4 * m - 1 else 4 * m - 2
  let s := x.scale - 2
  let up := if 0 ≤ s then Nat.pow 2 s.toNat else 1
  let den := if 0 ≤ s then 1 else Nat.pow 2 (-s).toNat
  { low := lowered * up, value := 4 * m * up, high := (4 * m + 2) * up, den := den,
    closed := m % 2 == 0 }

/-- The exponent `k` with `10 ^ k ≤ num / den < 10 ^ (k + 1)`, from an estimate that is at most
`fuel` too low. -/
def decimalExponentFrom (num den : Nat) : Nat → Int → Int
  | 0, k => k
  | fuel + 1, k =>
    let next := k + 1
    let reaches :=
      if 0 ≤ next then den * Nat.pow 10 next.toNat ≤ num else den ≤ num * Nat.pow 10 (-next).toNat
    if reaches then decimalExponentFrom num den fuel next else k

/-- The decimal exponent of a positive ratio. -/
def decimalExponent (num den : Nat) : Int :=
  let binary := binaryExponent num den
  decimalExponentFrom num den 4 (binary * 30103 / 100000 - 2)

/-- The best decimal whose last digit counts `10 ^ unit`: of the two grid points around the value
the one inside the interval, the nearer if both are, the even one on a tie. -/
def onGrid? (i : RoundingInterval) (unit : Int) : Option Nat :=
  let up := if 0 ≤ unit then Nat.pow 10 unit.toNat else 1
  let down := if 0 ≤ unit then 1 else Nat.pow 10 (-unit).toNat
  -- the value is (i.value * down) / (i.den * up) units
  let num := i.value * down
  let den := i.den * up
  let below := num / den
  let rest := num % den
  let inside := fun n => 0 < n && i.contains (n * up) down
  match inside below, inside (below + 1) with
  | false, false => none
  | true, false => some below
  | false, true => some (below + 1)
  | true, true =>
    if 2 * rest < den then some below
    else if den < 2 * rest then some (below + 1)
    else some (below + below % 2)

/-- Tries one digit more each time. Seventeen digits always suffice, so that no try is missing. -/
def shortestFrom (i : RoundingInterval) (lead : Int) : Nat → Nat → Decimal
  | 0, count => ⟨1, 1 - (count : Int) + lead⟩
  | fuel + 1, count =>
    let unit := lead - count
    match onGrid? i unit with
    | some n => ⟨n, unit⟩
    | none => shortestFrom i lead fuel (count + 1)

/-- Drops trailing zero digits into the exponent. -/
def trimZeros : Nat → Decimal → Decimal
  | 0, d => d
  | fuel + 1, d =>
    if d.digits ≠ 0 ∧ d.digits % 10 = 0 then trimZeros fuel ⟨d.digits / 10, d.exponent + 1⟩ else d

/-- The shortest decimal that rounds to a positive finite number. -/
def shortest (x : Double) : Decimal :=
  let i := x.roundingInterval
  trimZeros 20 (shortestFrom i (decimalExponent i.value i.den) 18 0)

end Double

/-- How the exponent of a number outside the positional range is written. -/
structure FloatStyle where
  /-- What stands before a non-negative exponent. -/
  positiveExponent : String

namespace FloatStyle

/-- JSON text writes `1e+16`. -/
def json : FloatStyle := ⟨"+"⟩

/-- YAML text writes `1e16`. -/
def yaml : FloatStyle := ⟨""⟩

/-- Lays out a positive decimal: positional from `1e-5` up to but not including `1e16`, with at
least one digit after the point; otherwise one digit, the rest after a point, and the exponent. -/
def layout (style : FloatStyle) (d : Decimal) : String :=
  let ds := (toString d.digits).toList
  let n : Int := ds.length
  let point := n + d.exponent
  if 0 ≤ d.exponent ∧ point ≤ 16 then
    String.ofList (ds ++ List.replicate d.exponent.toNat '0') ++ ".0"
  else if 0 < point ∧ point ≤ 16 then
    String.ofList (ds.take point.toNat) ++ "." ++ String.ofList (ds.drop point.toNat)
  else if -5 < point ∧ point ≤ 0 then
    "0." ++ String.ofList (List.replicate (-point).toNat '0' ++ ds)
  else
    let e := point - 1
    let head := String.ofList (ds.take 1)
    let tail := if ds.length ≤ 1 then "" else "." ++ String.ofList (ds.drop 1)
    let power :=
      if e < 0 then "-" ++ toString (-e).toNat else style.positiveExponent ++ toString e.toNat
    head ++ tail ++ "e" ++ power

/-- The text of a finite number; both zeros keep their sign. -/
def write (style : FloatStyle) (x : Double) : String :=
  (if x.isNegative then "-" else "") ++
    (if x.isZero then "0.0" else style.layout x.magnitude.shortest)

end FloatStyle

end Mishap
