import Scriptlet.Number.Decimal

/-!
# The text of a number

An integral double is written as that integer with all its digits, a zero
without its sign. Any other finite double is written with the fewest decimal
digits that are read back as the same double; of two such decimals the nearer
one is taken, and of two equally near ones the one that ends in an even
digit. The digits are written positionally, and with an exponent of at least
two digits when the number is below `0.0001`.
-/

namespace Scriptlet.Number

open Float.Model (UnpackedFloat)

/-- The integer `mantissa · 2 ^ exponent`, if it is one. -/
def integer? (mantissa : Nat) (exponent : Int) : Option Nat :=
  if 0 ≤ exponent then some (mantissa * Nat.pow 2 exponent.toNat)
  else
    let divisor := Nat.pow 2 (-exponent).toNat
    if mantissa % divisor = 0 then some (mantissa / divisor) else none

/-- The least `k` from `start` on with `denominator ≤ numerator · 10 ^ k`, looked
for in `fuel` steps. -/
def scaleUp (numerator denominator : Nat) : (fuel start : Nat) → Nat
  | 0, start => start
  | fuel + 1, start =>
    if denominator ≤ numerator * Nat.pow 10 start then start
    else scaleUp numerator denominator fuel (start + 1)

/-- The number of digits before the point; for a number below one the
negated number of zeros after the point. -/
def magnitude (numerator denominator : Nat) : Int :=
  if denominator ≤ numerator then (Nat.toDigits 10 (numerator / denominator)).length
  else 1 - (scaleUp numerator denominator 400 1 : Int)

/-- The two neighbours of `numerator / denominator` among the multiples of
`10 ^ exponent`, the nearer one first; of two equally near ones the even
multiple is first. -/
def neighbours (numerator denominator : Nat) (exponent : Int) : List Decimal :=
  let scaledNumerator := numerator * Nat.pow 10 (-exponent).toNat
  let scaledDenominator := denominator * Nat.pow 10 exponent.toNat
  let below := scaledNumerator / scaledDenominator
  let twice := 2 * (scaledNumerator % scaledDenominator)
  if twice < scaledDenominator ∨ (twice = scaledDenominator ∧ below % 2 = 0) then
    [⟨below, exponent⟩, ⟨below + 1, exponent⟩]
  else
    [⟨below + 1, exponent⟩, ⟨below, exponent⟩]

/-- The numbers of digits that are tried. -/
def digitCounts : List Nat :=
  [1, 2, 3, 4, 5, 6, 7, 8, 9, 10, 11, 12, 13, 14, 15, 16, 17]

/-- All decimal digits of `mantissa / 2 ^ places`. -/
def expansion (mantissa places : Nat) : Decimal :=
  ⟨mantissa * Nat.pow 5 places, -places⟩

/-- The shortest decimal that is read as the double nearest to
`mantissa / 2 ^ places`. -/
def shortest (mantissa places : Nat) : Decimal :=
  let x := ofBinary .positive mantissa (-places)
  let digits := magnitude mantissa (Nat.pow 2 places)
  let candidates := digitCounts.flatMap fun (count : Nat) =>
    neighbours mantissa (Nat.pow 2 places) (digits - count)
  (candidates.find? fun d => d.toFloat.toBits == x.toBits).getD (expansion mantissa places)

/-- Takes the zeros off the end of a list of digits. -/
def dropFinalZeros (digits : List Char) : List Char :=
  (digits.reverse.dropWhile (· == '0')).reverse

/-- The digits with the point after the first `before` of them, which may be
fewer than none. -/
def positional (digits : List Char) (before : Int) : List Char :=
  if before ≤ 0 then '0' :: '.' :: List.replicate (-before).toNat '0' ++ digits
  else
    let before := before.toNat
    digits.take before ++ List.replicate (before - digits.length) '0' ++ '.' ::
      (if digits.length ≤ before then ['0'] else digits.drop before)

/-- The digits with the point after the first one, and a negative exponent of
at least two digits. -/
def scientific (digits : List Char) (negatedExponent : Nat) : List Char :=
  let power := Nat.toDigits 10 negatedExponent
  digits.take 1 ++ (if digits.length ≤ 1 then [] else '.' :: digits.drop 1) ++ 'e' :: '-' ::
    (if power.length < 2 then '0' :: power else power)

/-- The text of a decimal, with an exponent when it is below `0.0001`. -/
def Decimal.print (d : Decimal) : List Char :=
  let digits := Nat.toDigits 10 d.coefficient
  let before := d.exponent + digits.length
  let digits := dropFinalZeros digits
  if before ≤ -4 then scientific digits (1 - before).toNat
  else positional digits before

/-- The text of the positive number `mantissa · 2 ^ exponent`. -/
def printPositive (mantissa : Nat) (exponent : Int) : List Char :=
  match integer? mantissa exponent with
  | some n => Nat.toDigits 10 n
  | none => (shortest mantissa (-exponent).toNat).print

/-- The text of a double. -/
def print (x : Float) : String :=
  match parts x with
  | .notANumber => "nan"
  | .infinity .positive => "inf"
  | .infinity .negative => "-inf"
  | .zero _ => "0"
  | .finite .positive mantissa exponent _ => String.ofList (printPositive mantissa exponent)
  | .finite .negative mantissa exponent _ => String.ofList ('-' :: printPositive mantissa exponent)

end Scriptlet.Number
