import Scriptlet.Number.Decimal

/-!
# Arithmetic on numbers

Sum, difference, product and quotient are those of doubles, so a division by
zero gives an infinity or not a number. The remainder is exact: the dividend
less the divisor times their quotient truncated to an integer. It has the
sign of the dividend, is the dividend itself when the divisor is infinite,
and is not a number where it is undefined.
-/

namespace Scriptlet.Number

open Float.Model (UnpackedFloat)

/-- The remainder of `a` divided by `b`. -/
def remainder (a b : Float) : Float :=
  match parts a, parts b with
  | .notANumber, _ => nan
  | .infinity _, _ => nan
  | _, .notANumber => nan
  | _, .zero _ => nan
  | _, .infinity _ => a
  | .zero _, .finite .. => a
  | .finite sign m e _, .finite _ n f _ =>
    let exponent := min e f
    let dividend := m * Nat.pow 2 (e - exponent).toNat
    let divisor := n * Nat.pow 2 (f - exponent).toNat
    ofBinary sign (dividend % divisor) exponent

/-- The result of an operator on two numbers; `none` for a text that is no
operator. -/
def operate? (symbol : String) (a b : Float) : Option Float :=
  match symbol with
  | "+" => some (a + b)
  | "-" => some (a - b)
  | "*" => some (a * b)
  | "/" => some (a / b)
  | "%" => some (remainder a b)
  | _ => none

end Scriptlet.Number
