import Scriptlet.Token.Scanner

/-!
# Syntax highlighting

A line of source text is cut into parts, each with a style: one part for each
token and one for the text before it. If the line cannot be cut into tokens,
the text from the place of the failure on is one part in the error style, and
what stands before it is treated as a line of its own.
-/

namespace Scriptlet

/-- The look of a part of a line. -/
inductive Style where
  | plain | keyword | number | string | error
deriving DecidableEq, Repr

/-- The terminal attributes of a style. -/
def Style.attributes : Style → String
  | plain => ""
  | keyword => "bold ansicyan"
  | number => "ansimagenta"
  | string => "ansigreen"
  | error => "bold ansired"

/-- The style of the tokens of a kind. -/
def Kind.style : Kind → Style
  | letWord | constWord | fnWord => .keyword
  | number => .number
  | string => .string
  | _ => .plain

/-- A part of a line. -/
structure Part where
  /-- Its style. -/
  style : Style
  /-- Its text. -/
  text : List Char
deriving DecidableEq, Repr

namespace Highlight

/-- The characters of a line from `first` up to `last`, which is left out. -/
def slice (line : List Char) (first last : Nat) : List Char :=
  (line.drop first).take (last - first)

/-- The index in its line at which a token starts. -/
def start (token : Token) : Nat :=
  token.position.column - 1

/-- Whether a number is written with a digit before its point only in the
token. -/
def hasAddedZero (line : List Char) (token : Token) : Bool :=
  ['0', '.'].isPrefixOf token.text.toList && (line.drop (start token)).head? == some '.'

/-- How a token is spelled in its line. -/
def spelling (line : List Char) (token : Token) : List Char :=
  match token.kind with
  | .string => slice line (start token) (start token + token.text.length + 2)
  | .number =>
    if hasAddedZero line token then token.text.toList.drop 1 else token.text.toList
  | _ => token.text.toList

/-- The part from `first` up to `last`, if that is something. -/
def gap (line : List Char) (first last : Nat) : List Part :=
  if first < last then [⟨.plain, slice line first last⟩] else []

/-- The parts of the tokens before the end token, from an index of the line
on, and the index after them. -/
def tokenParts (line : List Char) (index : Nat) : List Token → List Part × Nat
  | [] => ([], index)
  | token :: rest =>
    if token.kind = .eof then ([], index)
    else
      let text := spelling line token
      let (parts, last) := tokenParts line (start token + text.length) rest
      (gap line index (start token) ++ ⟨token.kind.style, text⟩ :: parts, last)

/-- The parts of a line that may be cut into tokens up to `bad`. -/
def assemble (line : List Char) (tokens : List Token) (bad : Option Nat) : List Part :=
  let (parts, index) := tokenParts line 0 tokens
  let parts :=
    match bad with
    | some bad => parts ++ gap line index bad ++ [⟨.error, line.drop bad⟩]
    | none => parts ++ gap line index line.length
  if parts.isEmpty then [⟨.plain, line⟩] else parts

/-- The tokens of a line that can be cut into tokens. -/
def tokensOf (line : List Char) : List Token :=
  match tokenize (String.ofList line) with
  | .ok tokens => tokens
  | .error _ => []

/-- The parts of a line. -/
def parts (line : List Char) : List Part :=
  match tokenize (String.ofList line) with
  | .ok tokens => assemble line tokens none
  | .error e => assemble line (tokensOf (line.take e.offset)) (some e.offset)

/-- The first line of a text and those after it. -/
def splitLines : List Char → List Char × List (List Char)
  | [] => ([], [])
  | c :: rest =>
    let (line, more) := splitLines rest
    if c = '\n' then ([], line :: more) else (c :: line, more)

/-- The lines of a text, which newlines divide. -/
def lines (text : List Char) : List (List Char) :=
  (splitLines text).1 :: (splitLines text).2

/-- The parts of the line with a given number, counted from zero, or from the
end if the number is negative. After the last line come empty ones; before
the first one there is none. -/
def lineParts? (text : String) (number : Int) : Option (List Part) :=
  let all := lines text.toList
  if number < 0 then
    if 0 ≤ number + all.length then (all[(number + all.length).toNat]?).map parts
    else none
  else
    match all[number.toNat]? with
    | some line => some (parts line)
    | none => some [⟨.plain, []⟩]

end Highlight

end Scriptlet
