import Scriptlet.Text.Quoted

/-!
# Tokens

A token has a kind, the text that it stands for, and the place in the source
where it starts. Lines and columns are counted from one, columns in
characters.
-/

namespace Scriptlet

/-- A place in a source text. -/
structure Position where
  /-- The number of the line. -/
  line : Nat
  /-- The number of the character in its line. -/
  column : Nat
deriving DecidableEq, Repr

namespace Position

/-- Where a text starts. -/
def start : Position :=
  ⟨1, 1⟩

/-- The place after a character. -/
def next (p : Position) (c : Char) : Position :=
  if c = '\n' then ⟨p.line + 1, 1⟩ else ⟨p.line, p.column + 1⟩

/-- The place after a run of characters. -/
def after (p : Position) (text : List Char) : Position :=
  text.foldl next p

/-- Nothing moves the place nowhere. -/
@[simp]
theorem after_nil (p : Position) : p.after [] = p :=
  rfl

/-- A run of characters is passed one by one. -/
@[simp]
theorem after_cons (p : Position) (c : Char) (text : List Char) :
    p.after (c :: text) = (p.next c).after text :=
  rfl

/-- Two runs are passed one after the other. -/
@[simp]
theorem after_append (p : Position) (a b : List Char) :
    p.after (a ++ b) = (p.after a).after b :=
  List.foldl_append

end Position

/-- The kinds of tokens. -/
inductive Kind where
  | number | ident | string
  | letWord | constWord | fnWord
  | operator | equals
  | comma | dot | colon | semi
  | lpar | rpar | lbrace | rbrace | lsqb | rsqb
  | eof
deriving DecidableEq, Repr

namespace Kind

/-- The name of a kind in messages. -/
def label : Kind → String
  | number => "NUMBER"
  | ident => "IDENT"
  | string => "STRING"
  | letWord => "LET"
  | constWord => "CONST"
  | fnWord => "FN"
  | operator => "BINARY_OP"
  | equals => "EQUALS"
  | comma => "COMMA"
  | dot => "DOT"
  | colon => "COLON"
  | semi => "SEMI"
  | lpar => "LPAR"
  | rpar => "RPAR"
  | lbrace => "LBRACE"
  | rbrace => "RBRACE"
  | lsqb => "LSQB"
  | rsqb => "RSQB"
  | eof => "EOF"

/-- All kinds. -/
def all : List Kind :=
  [number, ident, string, letWord, constWord, fnWord, operator, equals, comma, dot, colon, semi,
    lpar, rpar, lbrace, rbrace, lsqb, rsqb, eof]

/-- The kind with a given name. -/
def ofLabel? (name : String) : Option Kind :=
  all.find? fun kind => kind.label == name

/-- Whether a token of this kind can end an operand, so that a point after it
asks for a field. -/
def endsOperand : Kind → Bool
  | ident | number | rpar | rsqb | rbrace => true
  | _ => false

end Kind

/-- A token. -/
structure Token where
  /-- Its kind. -/
  kind : Kind
  /-- The text it stands for: a string without its quotes, a number with a
  digit before its point. -/
  text : String
  /-- Where it starts. -/
  position : Position
deriving DecidableEq, Repr

namespace Token

/-- The text of the token that ends every token list. -/
def endText : String :=
  "EndOfFile"

/-- The token that stands for a missing token list. -/
def missing : Token :=
  ⟨.eof, endText, ⟨0, 0⟩⟩

/-- A token with all its parts, as it is shown for inspection. -/
def describe (t : Token) : String :=
  s!"Tok({t.kind.label}, {Text.quoted t.text}, {t.position.line}:{t.position.column})"

end Token

end Scriptlet
