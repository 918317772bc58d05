import Mishap.Number.Double
import Mishap.Text.Digits

/-!
# Decimal numbers in text

The text of a number has digits, a point among, before or after them, and an optional exponent. It
stands for the nearest double. Digits and exponent are weighed together, so that a long run of
zeros and a large exponent may make up for each other.
-/

namespace Mishap.Double

/-- The nearest double to the number of some digits times ten to the power `e`. More than 400 places
to either side of the point nothing is computed. -/
def ofDigits (digits : List Char) (e : Int) : Double :=
  let digits := digits.dropWhile (· == '0')
  let places := e + digits.length
  if digits.isEmpty || places < -400 then zero
  else if 400 < places then infinity
  else ofDecimal (Text.decimalValue digits) e

/-- Digits of an exponent stop counting when it has reached this. -/
def exponentLimit : Nat := 65536

/-- An exponent after its letter: an optional sign and at least one digit. -/
def exponentOfText? (s : List Char) : Option Int :=
  let (down, digits) := match s with
    | '-' :: t => (true, t)
    | '+' :: t => (false, t)
    | t => (false, t)
  if digits.isEmpty || !digits.all Text.isDigit then none
  else
    let n := digits.foldl
      (fun n c => if n < exponentLimit then 10 * n + Text.digitValue c else n) 0
    some (if down then -(n : Int) else n)

/-- A number without a sign, which may be too large for all doubles but infinity. -/
def ofUnsignedText? (s : List Char) : Option Double :=
  let whole := s.takeWhile Text.isDigit
  let s := s.dropWhile Text.isDigit
  let (part, s) := match s with
    | '.' :: t => (t.takeWhile Text.isDigit, t.dropWhile Text.isDigit)
    | t => ([], t)
  if whole.isEmpty && part.isEmpty then none
  else
    let e? := match s with
      | [] => some 0
      | 'e' :: t | 'E' :: t => exponentOfText? t
      | _ => none
    e?.map fun e => ofDigits (whole ++ part) (e - part.length)

/-- The words for what is no finite number, in letters of either case. -/
def ofWord? (s : List Char) : Option Double :=
  match String.ofList (s.map Char.toLower) with
  | "inf" | "infinity" => some infinity
  | "nan" => some nan
  | _ => none

/-- A number or a word with an optional sign. -/
def ofText? (s : List Char) : Option Double :=
  let bare := match s with
    | '-' :: t | '+' :: t => t
    | t => t
  (ofUnsignedText? bare <|> ofWord? bare).map (signed (s.head? == some '-'))

end Mishap.Double
