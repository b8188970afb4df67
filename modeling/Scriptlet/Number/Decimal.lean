/-!
# Decimals and doubles

Numbers are doubles. A double is taken apart by the model that the core
library gives it: not a number, an infinity, a zero, or a sign, a positive
mantissa and an exponent of two. A decimal is a coefficient times a power of
ten, and is read as the double nearest to it, a tie going to the even
mantissa.
-/

namespace Scriptlet.Number

open Float.Model (UnpackedFloat Format)

/-- What a double stands for. -/
def parts (x : Float) : UnpackedFloat :=
  x.toModel.unpack

/-- The double that stands for a number in canonical form. -/
def ofParts (number : UnpackedFloat) : Float :=
  .ofModel (Float.Model.pack number)

/-- The double that is not a number. -/
def nan : Float :=
  ofParts .notANumber

/-- The double nearest to `± mantissa · 2 ^ exponent`; a zero keeps its
sign. -/
def ofBinary (sign : UnpackedFloat.Sign) (mantissa : Nat) (exponent : Int) : Float :=
  if mantissa = 0 then ofParts (.zero sign)
  else ofParts (.round Format.binary64 sign mantissa exponent)

/-- The double nearest to an integer. -/
def ofInt (n : Int) : Float :=
  ofBinary (if n < 0 then .negative else .positive) n.natAbs 0

/-- The number `coefficient · 10 ^ exponent`. -/
structure Decimal where
  /-- The digits, as one number. -/
  coefficient : Nat
  /-- The power of ten. -/
  exponent : Int
deriving DecidableEq, Repr

/-- Every positive decimal with this exponent or a greater one is read as
infinity. -/
def Decimal.exponentBound : Int := 400

/-- The double nearest to a decimal. -/
def Decimal.toFloat (d : Decimal) : Float :=
  if d.exponent < 0 then
    ofParts (.ofScientific Format.binary64 d.coefficient d.exponent)
  else if d.coefficient ≠ 0 ∧ exponentBound ≤ d.exponent then
    ofParts (.infinity .positive)
  else
    ofBinary .positive (d.coefficient * Nat.pow 10 d.exponent.toNat) 0

end Scriptlet.Number
