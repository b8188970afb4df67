import Scriptlet.Character.Blank
import Scriptlet.Character.Digit
import Scriptlet.Number.Decimal

/-!
# Reading numerals

A numeral is a run of decimal digits of any script with at most one point,
and may have a sign, an exponent, single underscores between digits and
padding around it; infinity and not-a-number are written as words. It is read
as the double nearest to it. A digit that is not a decimal digit makes
the text no numeral.
-/

namespace Scriptlet.Number

open Character

/-- Whether a character is a decimal digit. -/
def isDecimal (c : Char) : Bool :=
  (decimalValue? c).isSome

/-- Splits off the decimal digits that a text starts with. -/
def takeDigits : List Char → List Nat × List Char
  | [] => ([], [])
  | c :: rest =>
    match decimalValue? c with
    | some d => (d :: (takeDigits rest).1, (takeDigits rest).2)
    | none => ([], c :: rest)

/-- The number that a list of decimal digits denotes. -/
def ofDigits (digits : List Nat) : Nat :=
  digits.foldl (fun n d => 10 * n + d) 0

/-- Takes out the underscores, each of which has to stand between two decimal
digits. -/
def dropUnderscores (afterDigit : Bool) : List Char → Option (List Char)
  | [] => some []
  | c :: rest =>
    if c == '_' then
      if afterDigit && (rest.head?.map isDecimal).getD false then
        dropUnderscores false rest
      else none
    else (dropUnderscores (isDecimal c) rest).map (c :: ·)

/-- A sign, if there is one, and what follows it; the flag says negative. -/
def takeSign : List Char → Bool × List Char
  | '-' :: rest => (true, rest)
  | '+' :: rest => (false, rest)
  | text => (false, text)

/-- The exponent that ends a numeral: nothing, or a mark and a signed run of
digits. -/
def readExponent : List Char → Option Int
  | [] => some 0
  | mark :: text =>
    if mark == 'e' || mark == 'E' then
      let (negative, text) := takeSign text
      match takeDigits text with
      | (digits@(_ :: _), []) =>
        some (if negative then -(ofDigits digits : Int) else ofDigits digits)
      | _ => none
    else none

/-- The decimal that a text without sign, padding and underscores
denotes. -/
def readDecimal (text : List Char) : Option Decimal :=
  let (whole, afterWhole) := takeDigits text
  let (fraction, afterFraction) :=
    match afterWhole with
    | '.' :: rest => takeDigits rest
    | _ => ([], afterWhole)
  if whole.isEmpty && fraction.isEmpty then none
  else
    (readExponent afterFraction).map fun exponent =>
      ⟨ofDigits (whole ++ fraction), exponent - fraction.length⟩

/-- The double that a text without sign and padding denotes. -/
def readUnsigned (text : List Char) : Option Float :=
  match String.ofList (text.map Char.toLower) with
  | "inf" | "infinity" => some (ofParts (.infinity .positive))
  | "nan" => some nan
  | _ => (dropUnderscores false text).bind fun text => (readDecimal text).map Decimal.toFloat

/-- The double that a numeral denotes; `none` if the text is no numeral. -/
def read? (text : String) : Option Float :=
  let unpadded := ((text.toList.dropWhile isPadding).reverse.dropWhile isPadding).reverse
  let (negative, unsigned) := takeSign unpadded
  (readUnsigned unsigned).map fun x => if negative then -x else x

end Scriptlet.Number
