import Scriptlet.Token.Lexeme

/-!
# Scanning a source text

A scanner holds the text that is still to be read, the place where it
starts, and the tokens found so far. Scanning one lexeme moves it on and adds
a token, unless the lexeme is a run of separators; scanning to the end adds
the end token. A failure leaves the scanner where it happened: on the
character that starts no lexeme, or after the last character if a quote is
not closed.
-/

namespace Scriptlet

/-- A source text that is no sequence of tokens. -/
structure LexError where
  /-- The character at fault. -/
  char : Char
  /-- How many characters stand before it. -/
  offset : Nat
  /-- Where it stands. -/
  position : Position
  /-- What is wrong with it. -/
  obstacle : Lexeme.Obstacle
deriving DecidableEq, Repr

namespace LexError

/-- What is wrong, in words. -/
def reason (e : LexError) : String :=
  match e.obstacle with
  | .unrecognized => "Unrecognized character"
  | .unterminated => "Unterminated string"

/-- The message of the error. -/
def message (e : LexError) : String :=
  s!"{e.reason} {Text.quoted (String.singleton e.char)} at line {e.position.line}, " ++
    s!"col {e.position.column}"

end LexError

/-- A source text that is partly read. -/
structure Scanner where
  /-- What is still to be read. -/
  rest : List Char
  /-- How many characters have been read. -/
  offset : Nat
  /-- Where the rest starts. -/
  position : Position
  /-- The tokens found so far, the last one first. -/
  found : List Token
deriving DecidableEq, Repr

namespace Scanner

/-- A source text of which nothing is read yet. -/
def ofSource (source : String) : Scanner :=
  ⟨source.toList, 0, .start, []⟩

/-- The tokens found so far, in the order of the source. -/
def tokens (s : Scanner) : List Token :=
  s.found.reverse

/-- The character that comes after `ahead` others; the null character past
the end. -/
def peek (s : Scanner) (ahead : Nat) : Char :=
  s.rest.getD ahead '\x00'

/-- Whether the last token ends an operand. -/
def afterOperand (s : Scanner) : Bool :=
  (s.found.head?.map (·.kind.endsOperand)).getD false

/-- Passes the first `count` characters of the rest. -/
def skip (s : Scanner) (count : Nat) : Scanner :=
  { s with
    rest := s.rest.drop count
    offset := s.offset + (s.rest.take count).length
    position := s.position.after (s.rest.take count) }

/-- Passes one character; `none` at the end of the text. -/
def advance? (s : Scanner) : Option (Char × Scanner) :=
  s.rest.head?.map fun c => (c, s.skip 1)

/-- Adds a token. -/
def emit (s : Scanner) (kind : Kind) (text : List Char) (position : Position) : Scanner :=
  { s with found := ⟨kind, String.ofList text, position⟩ :: s.found }

/-- Passes a lexeme and adds its token, if it has one. -/
def take (s : Scanner) (lexeme : Lexeme) : Scanner :=
  let passed := s.skip lexeme.span.length
  match lexeme.kind with
  | some kind => passed.emit kind lexeme.text s.position
  | none => passed

/-- Passes a run of separators, which may be empty. -/
def skipBlank (s : Scanner) : Scanner :=
  s.take (.blank s.rest)

/-- Takes the text from here as a number, which may be empty. -/
def scanNumber (s : Scanner) : Scanner :=
  s.take (.number s.rest)

/-- Takes the text from here as a word, which may be empty. -/
def scanWord (s : Scanner) : Scanner :=
  s.take (.word s.rest)

/-- The failure at the place of the scanner. -/
def failure (s : Scanner) (obstacle : Lexeme.Obstacle) : LexError :=
  ⟨s.peek 0, s.offset, s.position, obstacle⟩

/-- The outcome of cutting off a lexeme, and the scanner that it leaves. -/
def settle (s : Scanner) : Except Lexeme.Obstacle Lexeme → EStateM.Result LexError Scanner Unit
  | .ok lexeme => .ok () (s.take lexeme)
  | .error .unrecognized => .error (s.failure .unrecognized) s
  | .error .unterminated => .error (s.failure .unterminated) (s.skip s.rest.length)

/-- Takes the text from here as a string, whatever character stands for its
quote; `none` at the end of the text. -/
def scanString? (s : Scanner) : Option (EStateM.Result LexError Scanner Unit) :=
  match s.rest with
  | [] => none
  | quote :: body =>
    match Lexeme.string? quote body with
    | some lexeme => some (s.settle (.ok lexeme))
    | none => some (s.settle (.error .unterminated))

/-- Scans the next lexeme. -/
def scan (s : Scanner) : EStateM.Result LexError Scanner Unit :=
  s.settle (Lexeme.next s.afterOperand s.rest)

/-- Scanning a lexeme leaves less to be read. -/
theorem rest_lt_of_scan {s t : Scanner} (h : s.scan = .ok () t) :
    t.rest.length < s.rest.length := by
  unfold scan settle at h
  split at h
  · rename_i lexeme hnext
    have hne := Lexeme.span_ne_nil hnext
    have hlen := (Lexeme.span_isPrefixOf hnext).length_le
    have hpos := List.length_pos_iff.2 hne
    simp only [EStateM.Result.ok.injEq, true_and] at h
    subst h
    unfold take
    split <;> simp [skip, emit] <;> omega
  · simp at h
  · simp at h

/-- Scans to the end of the text and adds the end token. -/
def scanAll (s : Scanner) : EStateM.Result LexError Scanner Unit :=
  if s.rest = [] then .ok () (s.emit .eof Token.endText.toList s.position)
  else
    match _h : s.scan with
    | .ok () t => t.scanAll
    | .error e t => .error e t
termination_by s.rest.length
decreasing_by exact rest_lt_of_scan ‹_›

end Scanner

/-- The tokens of a source text, the end token last. -/
def tokenize (source : String) : Except LexError (List Token) :=
  match (Scanner.ofSource source).scanAll with
  | .ok () s => .ok s.tokens
  | .error e _ => .error e

end Scriptlet
