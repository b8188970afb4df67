import Scriptlet.Character.Blank
import Scriptlet.Character.Digit
import Scriptlet.Character.Letter
import Scriptlet.Token

/-!
# Lexemes

Source text is cut into lexemes: runs of separators, and the spellings of
single tokens. What the next lexeme is depends on the text from there on and
on whether the token before it ends an operand, in which case a point does
not start a number. A lexeme is never empty, and its span is what the source
text starts with.
-/

namespace Scriptlet

open Character

/-- A piece of source text. -/
structure Lexeme where
  /-- The kind of its token; a run of separators has none. -/
  kind : Option Kind
  /-- The characters that it covers. -/
  span : List Char
  /-- The text of its token. -/
  text : List Char
deriving DecidableEq, Repr

/-- Why no lexeme can be cut off. -/
inductive Lexeme.Obstacle where
  /-- The next character starts no lexeme. -/
  | unrecognized
  /-- A quote is not closed. -/
  | unterminated
deriving DecidableEq, Repr

namespace Lexeme

/-- The kind of a single punctuation mark. -/
def punctuation? (c : Char) : Option Kind :=
  if c = '(' then some .lpar
  else if c = ')' then some .rpar
  else if c = '{' then some .lbrace
  else if c = '}' then some .rbrace
  else if c = '[' then some .lsqb
  else if c = ']' then some .rsqb
  else if c = ',' then some .comma
  else if c = '.' then some .dot
  else if c = ':' then some .colon
  else if c = ';' then some .semi
  else if c = '=' then some .equals
  else none

/-- Whether a character is an arithmetic operator. -/
def isOperator (c : Char) : Bool :=
  c == '+' || c == '-' || c == '*' || c == '/' || c == '%'

/-- Whether a character opens a string. -/
def isQuote (c : Char) : Bool :=
  c == Text.doubleQuote || c == Text.singleQuote

/-- The kind of a word. -/
def wordKind (word : List Char) : Kind :=
  if word = ['l', 'e', 't'] then .letWord
  else if word = ['c', 'o', 'n', 's', 't'] then .constWord
  else if word = ['f', 'n'] then .fnWord
  else .ident

/-- The run of separators that a text starts with. -/
def blank (text : List Char) : Lexeme :=
  ⟨none, text.takeWhile isSeparator, []⟩

/-- The digits that a text starts with, and a point and more digits if they
follow. -/
def numberSpan (text : List Char) : List Char :=
  text.takeWhile isDigit ++
    match text.dropWhile isDigit with
    | '.' :: rest => '.' :: rest.takeWhile isDigit
    | _ => []

/-- A number without a digit before its point gets a zero there. -/
def completeNumber : List Char → List Char
  | '.' :: rest => '0' :: '.' :: rest
  | span => span

/-- The number that a text starts with. -/
def number (text : List Char) : Lexeme :=
  ⟨some .number, numberSpan text, completeNumber (numberSpan text)⟩

/-- The word that a text starts with. -/
def word (text : List Char) : Lexeme :=
  ⟨some (wordKind (text.takeWhile isLetter)), text.takeWhile isLetter, text.takeWhile isLetter⟩

/-- What stands before the closing quote; a backslash takes the character
after it along. -/
def stringBody? (quote : Char) : List Char → Option (List Char)
  | [] => none
  | c :: rest =>
    if c = quote then some []
    else if c = '\\' then
      match rest with
      | [] => none
      | d :: rest => (stringBody? quote rest).map fun body => c :: d :: body
    else (stringBody? quote rest).map (c :: ·)

/-- The string that starts with a quote and goes on with `text`. -/
def string? (quote : Char) (text : List Char) : Option Lexeme :=
  (stringBody? quote text).map fun body =>
    ⟨some .string, quote :: body ++ [quote], body⟩

/-- A token of one character. -/
def single (kind : Kind) (c : Char) : Lexeme :=
  ⟨some kind, [c], [c]⟩

/-- Whether a text starts with a number: with a digit, or, where an operand
may start, with a point and a digit. -/
def startsNumber (afterOperand : Bool) (c : Char) (rest : List Char) : Bool :=
  isDigit c || (c == '.' && (rest.head?.map isDigit).getD false && !afterOperand)

/-- The lexeme that a text starts with. -/
def next (afterOperand : Bool) : List Char → Except Obstacle Lexeme
  | [] => .error .unrecognized
  | c :: rest =>
    if isSeparator c then .ok (blank (c :: rest))
    else if startsNumber afterOperand c rest then .ok (number (c :: rest))
    else
      match punctuation? c with
      | some kind => .ok (single kind c)
      | none =>
        if isOperator c then .ok (single .operator c)
        else if isQuote c then
          match string? c rest with
          | some lexeme => .ok lexeme
          | none => .error .unterminated
        else if isLetter c then .ok (word (c :: rest))
        else .error .unrecognized

/-- The body of a string and its closing quote are what the text starts
with. -/
theorem body_isPrefixOf_text {quote : Char} {text body : List Char}
    (h : stringBody? quote text = some body) : body ++ [quote] <+: text := by
  fun_induction stringBody? quote text generalizing body with
  | case1 => simp at h
  | case2 rest => simp_all
  | case3 => simp at h
  | case4 hne d rest ih =>
    obtain ⟨inner, hinner, rfl⟩ := Option.map_eq_some_iff.1 h
    simpa using ih hinner
  | case5 c rest hne hback ih =>
    obtain ⟨inner, hinner, rfl⟩ := Option.map_eq_some_iff.1 h
    simpa using ih hinner

/-- The span of a number is what the text starts with. -/
theorem numberSpan_isPrefixOf (text : List Char) : numberSpan text <+: text := by
  conv => rhs; rw [← List.takeWhile_append_dropWhile (p := isDigit) (l := text)]
  unfold numberSpan
  apply List.prefix_append_right_inj _ |>.2
  split
  · rename_i rest heq
    rw [heq]
    exact List.cons_prefix_cons.2 ⟨rfl, List.takeWhile_prefix _⟩
  · exact List.nil_prefix

/-- A text that starts a number has a number span that is not empty. -/
theorem numberSpan_ne_nil {afterOperand : Bool} {c : Char} {rest : List Char}
    (h : startsNumber afterOperand c rest = true) : numberSpan (c :: rest) ≠ [] := by
  unfold numberSpan
  cases hc : isDigit c with
  | true => simp [hc]
  | false =>
    simp only [startsNumber, hc, Bool.false_or, Bool.and_eq_true, beq_iff_eq] at h
    obtain ⟨⟨rfl, -⟩, -⟩ := h
    simp [hc]

/-- The span of the next lexeme is what the text starts with. -/
theorem span_isPrefixOf {afterOperand : Bool} {text : List Char} {lexeme : Lexeme}
    (h : next afterOperand text = .ok lexeme) : lexeme.span <+: text := by
  cases text with
  | nil => simp [next] at h
  | cons c rest =>
    simp only [next] at h
    repeat' split at h
    all_goals simp only [reduceCtorEq, Except.ok.injEq] at h
    all_goals subst h
    · exact List.takeWhile_prefix _
    · exact numberSpan_isPrefixOf _
    · simp [single]
    · simp [single]
    · rename_i lexeme hstring
      obtain ⟨body, hbody, rfl⟩ := Option.map_eq_some_iff.1 hstring
      simpa using body_isPrefixOf_text hbody
    · exact List.takeWhile_prefix _

/-- The next lexeme is not empty. -/
theorem span_ne_nil {afterOperand : Bool} {text : List Char} {lexeme : Lexeme}
    (h : next afterOperand text = .ok lexeme) : lexeme.span ≠ [] := by
  cases text with
  | nil => simp [next] at h
  | cons c rest =>
    simp only [next] at h
    repeat' split at h
    all_goals simp only [reduceCtorEq, Except.ok.injEq] at h
    all_goals subst h
    · simp_all [blank]
    · exact numberSpan_ne_nil ‹_›
    · simp [single]
    · simp [single]
    · rename_i lexeme hstring
      obtain ⟨body, hbody, rfl⟩ := Option.map_eq_some_iff.1 hstring
      simp
    · simp_all [word]

end Lexeme

end Scriptlet
