import Scriptlet.Parser.Expression

/-!
# Parsing programs

A program is a sequence of statements up to the end token. A statement is the
declaration of a variable, a constant or a function, or an expression that
may be closed by a semicolon.
-/

namespace Scriptlet.Parser

/-- The declaration of a variable or a constant; the current token is taken
as its keyword. -/
def declaration : Parser Node := do
  let keyword ← advance
  let constant := keyword.kind == .constWord
  let name ← expect .ident (.declaredName keyword.text)
  if ← check [.semi] then
    if constant then reject (.initializer name.text) (← peek)
    else
      let _ ← advance
      return .declaration name.text false none
  else
    let _ ← expect .equals .declarationMiddle
    let value ← expression
    let _ ← expect .semi .declarationEnd
    return .declaration name.text constant (some value)

/-- One more statement, unless the current token is of one of the kinds. The
statements are collected in reverse. -/
def statementStep (stops : List Kind) (statement : Parser Node) (collected : List Node) :
    Parser (List Node ⊕ List Node) := do
  if ← check stops then return .inr collected.reverse
  else return .inl ((← statement) :: collected)

/-- Statements up to a token of one of the kinds. -/
def statements (stops : List Kind) (statement : Parser Node) : Parser (List Node) :=
  loop (statementStep stops statement) []

/-- The declaration of a function. -/
def function (statement : Parser Node) : Parser Node := do
  let _ ← expect .fnWord (.wanted .fnWord)
  let name ← expect .ident .functionName
  let start ← peek
  let parameters ← arguments expression
  match parameters.mapM Node.name? with
  | none => reject .parameterNames start
  | some names =>
    let _ ← expect .lbrace .bodyOpen
    let body ← statements [.eof, .rbrace] statement
    let _ ← expect .rbrace .bodyClose
    return .function name.text names body

/-- A statement, given the parser of the statements in a function body. -/
def statementWith (inner : Parser Node) : Parser Node := do
  if ← check [.letWord, .constWord] then declaration
  else if ← check [.fnWord] then function inner
  else
    let node ← expression
    let _ ← accept [.semi]
    return node

/-- A statement in which at most `depth` statements are nested. -/
def nestedStatement : (depth : Nat) → Parser Node
  | 0 => throw .endless
  | depth + 1 => statementWith (nestedStatement depth)

/-- A statement. -/
def statement : Parser Node :=
  fun s => nestedStatement (s.later.length + 1) s

/-- A program, up to the end token. -/
def program : Parser Node := do
  return .program (← statements [.eof] statement)

end Scriptlet.Parser

namespace Scriptlet

/-- The program that a list of tokens spells. -/
def parseTokens (tokens : List Token) : Except ParseFailure Node :=
  match Parser.program (.ofTokens tokens) with
  | .ok node _ => .ok node
  | .error failure _ => .error failure

end Scriptlet
