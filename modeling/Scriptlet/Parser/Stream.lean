import Scriptlet.Node
import Scriptlet.Token

/-!
# Reading tokens

A parser reads a stream of tokens: the current one and those after it. The
last token is never passed. A parser ends with a result or with a failure,
and in both cases leaves the stream at the place that it has reached.

A list of tokens that ends without an end token repeats its last token for
ever, and a parser may then go on for ever, too. Such a run counts as a failure
of its own, which no list with an end token can bring about.
-/

namespace Scriptlet

/-- What a parser was not given. -/
inductive Complaint where
  /-- A token of a kind. -/
  | wanted (kind : Kind)
  /-- A token of a kind, with the words for it. -/
  | note (kind : Kind) (text : String)
  /-- The name after a declaring keyword. -/
  | declaredName (keyword : String)
  /-- The value of a constant. -/
  | initializer (name : String)
  /-- The equals sign or the end of a declaration. -/
  | declarationMiddle
  /-- The end of a declaration. -/
  | declarationEnd
  /-- The name of a function. -/
  | functionName
  /-- Parameters that are names. -/
  | parameterNames
  /-- The start of a function body. -/
  | bodyOpen
  /-- The end of a function body. -/
  | bodyClose
  /-- The key of a property. -/
  | propertyKey
  /-- The colon after the key of a property. -/
  | propertyColon
  /-- The comma after the value of a property. -/
  | propertyEnd
  /-- The end of an object. -/
  | objectClose
  /-- The start of an argument list. -/
  | argumentsOpen
  /-- The end of an argument list. -/
  | argumentsClose
  /-- The name of a field. -/
  | fieldName
  /-- The end of a computed key. -/
  | indexClose
  /-- The end of a parenthesized expression. -/
  | groupClose
  /-- An expression. -/
  | expression
deriving DecidableEq, Repr

namespace Complaint

/-- The complaint in words, about a token. -/
def text (found : Token) : Complaint → String
  | wanted kind => s!"Expected {kind.label}, got {found.kind.label}"
  | note _ text => text
  | declaredName keyword => s!"Expected identifier name following '{keyword}'"
  | initializer name => s!"Constant '{name}' must be initialized"
  | declarationMiddle => "Expected '=' or ';' following identifier in declaration"
  | declarationEnd => "Variable declaration must end with ';'"
  | functionName => "Expected function name following 'fn'"
  | parameterNames => "Function parameters must be identifiers"
  | bodyOpen => "Expected '\x7b' to open function body"
  | bodyClose => "Expected '\x7d' to close function body"
  | propertyKey => "Expected identifier for object property key"
  | propertyColon => "Expected ':' after object property key"
  | propertyEnd => "Expected ',' or '\x7d' after object property value"
  | objectClose => "Expected '\x7d' to close object literal"
  | argumentsOpen => "Expected '('"
  | argumentsClose => "Expected ')' to close argument list"
  | fieldName => "Expected field name after '.'"
  | indexClose => "Expected ']' to close computed member access"
  | groupClose => "Expected ')' to close parenthesized expression"
  | expression => s!"Unexpected token {found.kind.label} {Text.quoted found.text}"

/-- The name of what was expected. -/
def expected : Complaint → String
  | wanted kind | note kind _ => kind.label
  | declaredName _ | functionName | parameterNames | propertyKey | fieldName => Kind.ident.label
  | initializer _ | declarationMiddle => Kind.equals.label
  | declarationEnd => Kind.semi.label
  | bodyOpen => Kind.lbrace.label
  | bodyClose | objectClose => Kind.rbrace.label
  | propertyColon => Kind.colon.label
  | propertyEnd => Kind.comma.label
  | argumentsOpen => Kind.lpar.label
  | argumentsClose | groupClose => Kind.rpar.label
  | indexClose => Kind.rsqb.label
  | expression => "expression"

end Complaint

/-- A complaint about a token. -/
structure ParseError where
  /-- What is wrong. -/
  complaint : Complaint
  /-- The token at fault. -/
  token : Token
deriving DecidableEq, Repr

namespace ParseError

/-- What is wrong, in words. -/
def text (e : ParseError) : String :=
  e.complaint.text e.token

/-- The name of what was expected. -/
def expected (e : ParseError) : String :=
  e.complaint.expected

/-- The line of the token at fault. -/
def line (e : ParseError) : Nat :=
  e.token.position.line

/-- The column of the token at fault. -/
def column (e : ParseError) : Nat :=
  e.token.position.column

/-- The message of the error. -/
def message (e : ParseError) : String :=
  s!"{e.text} at line {e.line}, col {e.column}"

end ParseError

/-- How parsing can fail. -/
inductive ParseFailure where
  /-- A token is not what the grammar asks for. -/
  | rejected (error : ParseError)
  /-- The text of a number token is no numeral. -/
  | unreadable (text : String)
  /-- The tokens do not end, and neither does parsing them. -/
  | endless
deriving DecidableEq, Repr

/-- A list of tokens that is partly read. -/
structure TokenStream where
  /-- How many tokens have been passed. -/
  index : Nat
  /-- The token to be read next. -/
  current : Token
  /-- The tokens after it. -/
  later : List Token
deriving DecidableEq, Repr

namespace TokenStream

/-- A list of tokens of which nothing is read yet. -/
def ofTokens : List Token → TokenStream
  | [] => ⟨0, .missing, []⟩
  | token :: later => ⟨0, token, later⟩

/-- The stream after its current token; the last token is not passed. -/
def next (s : TokenStream) : TokenStream :=
  match s.later with
  | [] => s
  | token :: later => ⟨s.index + 1, token, later⟩

end TokenStream

/-- A computation that reads tokens. -/
abbrev Parser := EStateM ParseFailure TokenStream

namespace Parser

/-- The current token. -/
def peek : Parser Token :=
  fun s => .ok s.current s

/-- Passes the current token. -/
def advance : Parser Token :=
  fun s => .ok s.current s.next

/-- Fails with a complaint about a token. -/
def reject {α : Type} (complaint : Complaint) (token : Token) : Parser α :=
  throw (.rejected ⟨complaint, token⟩)

/-- Whether the current token is of one of the kinds. -/
def check (kinds : List Kind) : Parser Bool :=
  return kinds.contains (← peek).kind

/-- Whether the current token is one of the operators. -/
def checkOperator (symbols : List String) : Parser Bool := do
  let token ← peek
  return token.kind == .operator && symbols.contains token.text

/-- Passes the current token if it is of one of the kinds, and says whether it
is. -/
def accept (kinds : List Kind) : Parser Bool := do
  if ← check kinds then
    let _ ← advance
    return true
  else
    return false

/-- Passes the current token, which has to be of the given kind. -/
def expect (kind : Kind) (complaint : Complaint) : Parser Token := do
  let token ← peek
  if token.kind = kind then advance else reject complaint token

/-- Repeats a step that answers with a new state until it answers with a
result, at most `bound` times. -/
def iterate {α β : Type} (step : α → Parser (α ⊕ β)) : (bound : Nat) → α → Parser β
  | 0, _ => throw .endless
  | bound + 1, state => do
    match ← step state with
    | .inl state => iterate step bound state
    | .inr result => return result

/-- Repeats a step until it answers with a result. A step that goes on has
passed a token, unless it stands at the last one, where two rounds show
whether it ever ends. -/
def loop {α β : Type} (step : α → Parser (α ⊕ β)) (state : α) : Parser β :=
  fun s => iterate step (s.later.length + 2) state s

end Parser

end Scriptlet
