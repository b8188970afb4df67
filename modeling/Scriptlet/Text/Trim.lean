import Scriptlet.Character.Blank

/-!
# Trimmed text

Lines that a user submits are looked at without the white space around them.
A command line splits into its first word and the rest. Flag words are
compared without regard to the case of the ASCII letters; no other character
has one of the letters of a flag word as its lower case.
-/

namespace Scriptlet.Text

open Character

/-- A text without the white space at both ends. -/
def trim (text : String) : String :=
  String.ofList ((text.toList.dropWhile isBlank).reverse.dropWhile isBlank).reverse

/-- The first word of a text that does not start with white space, and what
follows the white space after it. -/
def splitWord (text : String) : String × String :=
  (String.ofList (text.toList.takeWhile (!isBlank ·)),
    String.ofList ((text.toList.dropWhile (!isBlank ·)).dropWhile isBlank))

/-- A text with its ASCII letters in lower case. -/
def lowerCase (text : String) : String :=
  String.ofList (text.toList.map Char.toLower)

/-- Every line end is written as a single newline: a carriage return becomes
one, together with the newline after it if there is one. -/
def unifyLineEnds : List Char → List Char
  | [] => []
  | '\r' :: '\n' :: rest => '\n' :: unifyLineEnds rest
  | '\r' :: rest => '\n' :: unifyLineEnds rest
  | c :: rest => c :: unifyLineEnds rest

end Scriptlet.Text
