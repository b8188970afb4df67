import Scriptlet.Character.Ranges

/-!
# Blank characters

Three notions of blank are used. Between tokens only space, tab, newline and
carriage return count. Trimming a submitted line takes the whole class of
Unicode white space, the information separators among it. A numeral may have
white space around it other than the information separators.
-/

namespace Scriptlet.Character

/-- The code points of white space. -/
def blankIntervals : List Interval :=
  [(0x9, 0xd), (0x1c, 0x20), (0x85, 0x85), (0xa0, 0xa0), (0x1680, 0x1680), (0x2000, 0x200a),
   (0x2028, 0x2029), (0x202f, 0x202f), (0x205f, 0x205f), (0x3000, 0x3000)]

/-- Whether a character is white space. -/
def isBlank (c : Char) : Bool :=
  within c.toNat blankIntervals

/-- Whether a character is one of the four information separators. -/
def isInformationSeparator (c : Char) : Bool :=
  within c.toNat [(0x1c, 0x1f)]

/-- Whether a character may stand around a numeral. -/
def isPadding (c : Char) : Bool :=
  isBlank c && !isInformationSeparator c

/-- Whether a character may separate tokens. -/
def isSeparator (c : Char) : Bool :=
  c == ' ' || c == '\t' || c == '\n' || c == '\r'

end Scriptlet.Character
