import Scriptlet.Character.Printable

/-!
# Quoted text

Messages show a piece of text between quotes. Single quotes are used, unless
the text holds a single quote and no double quote. Inside, a backslash and
the chosen quote are preceded by a backslash, newline, carriage return and
tab have their short escapes, and every other character that is not
printable is written by its code point with two, four or eight hexadecimal
digits.
-/

namespace Scriptlet.Text

open Character

/-- The single quote. -/
def singleQuote : Char := '\x27'

/-- The double quote. -/
def doubleQuote : Char := '\x22'

/-- The last `width` hexadecimal digits of `n`, in lower case. -/
def hexadecimal : (width : Nat) → (n : Nat) → List Char
  | 0, _ => []
  | width + 1, n => hexadecimal width (n / 16) ++ [Nat.digitChar (n % 16)]

/-- How a character is written between quotes of the given kind. -/
def escape (quote c : Char) : List Char :=
  if c == quote || c == '\\' then ['\\', c]
  else if c == '\n' then ['\\', 'n']
  else if c == '\r' then ['\\', 'r']
  else if c == '\t' then ['\\', 't']
  else if isPrintable c then [c]
  else if c.toNat < 0x100 then '\\' :: 'x' :: hexadecimal 2 c.toNat
  else if c.toNat < 0x10000 then '\\' :: 'u' :: hexadecimal 4 c.toNat
  else '\\' :: 'U' :: hexadecimal 8 c.toNat

/-- The quote that a text is written with. -/
def quoteFor (text : List Char) : Char :=
  if text.contains singleQuote && !text.contains doubleQuote then doubleQuote
  else singleQuote

/-- A text between quotes, as messages show it. -/
def quoted (text : String) : String :=
  let quote := quoteFor text.toList
  String.ofList (quote :: text.toList.flatMap (escape quote) ++ [quote])

end Scriptlet.Text
