import Scriptlet.Number.Numeral
import Scriptlet.Parser.Stream

/-!
# Parsing expressions

From the loosest to the tightest, the levels of expressions are assignment,
object literals, sums, products, calls, members and primary expressions. The
parser of each level is given with the parser for the whole expressions that
stand inside it, between parentheses or brackets or after an equals sign, as
a parameter. The parser of whole expressions is then obtained by nesting the
levels as deep as there are tokens, for every nested expression starts at a
later token.
-/

namespace Scriptlet.Parser

/-- The operators between the terms of a sum. -/
def additive : List String :=
  ["+", "-"]

/-- The operators between the factors of a product. -/
def multiplicative : List String :=
  ["*", "/", "%"]

/-- A name, a number, or an expression between parentheses. -/
def primary (expression : Parser Node) : Parser Node := do
  let token ← peek
  match token.kind with
  | .ident =>
    let _ ← advance
    return .identifier token.text
  | .number =>
    let _ ← advance
    match Number.read? token.text with
    | some value => return .number value
    | none => throw (.unreadable token.text)
  | .lpar =>
    let _ ← advance
    let value ← expression
    let _ ← expect .rpar .groupClose
    return value
  | _ => reject .expression token

/-- One more access to a member, if there is one. -/
def memberStep (expression : Parser Node) (object : Node) : Parser (Node ⊕ Node) := do
  match (← peek).kind with
  | .dot =>
    let _ ← advance
    let field ← peek
    let property ← primary expression
    if property.isIdentifier then return .inl (.member object property false)
    else reject .fieldName field
  | .lsqb =>
    let _ ← advance
    let property ← expression
    let _ ← expect .rsqb .indexClose
    return .inl (.member object property true)
  | _ => return .inr object

/-- A primary expression with the accesses to members that follow it. -/
def member (expression : Parser Node) : Parser Node := do
  loop (memberStep expression) (← primary expression)

/-- One more argument after a comma, if there is one. The arguments are
collected in reverse. -/
def argumentStep (expression : Parser Node) (collected : List Node) :
    Parser (List Node ⊕ List Node) := do
  if ← accept [.comma] then return .inl ((← expression) :: collected)
  else return .inr collected.reverse

/-- Arguments between commas, at least one. -/
def argumentList (expression : Parser Node) : Parser (List Node) := do
  let first ← expression
  loop (argumentStep expression) [first]

/-- An argument list in its parentheses. -/
def arguments (expression : Parser Node) : Parser (List Node) := do
  let _ ← expect .lpar .argumentsOpen
  let collected ← if ← check [.rpar] then pure [] else argumentList expression
  let _ ← expect .rpar .argumentsClose
  return collected

/-- One more argument list, if there is one. -/
def callStep (expression : Parser Node) (callee : Node) : Parser (Node ⊕ Node) := do
  if ← check [.lpar] then return .inl (.call callee (← arguments expression))
  else return .inr callee

/-- The argument lists that follow what is called, at least one. -/
def calls (expression : Parser Node) (callee : Node) : Parser Node := do
  loop (callStep expression) (.call callee (← arguments expression))

/-- A member with the argument lists that follow it. -/
def callOrMember (expression : Parser Node) : Parser Node := do
  let node ← member expression
  if ← check [.lpar] then calls expression node else return node

/-- One more operator and operand, if there is one. -/
def operatorStep (symbols : List String) (operand : Parser Node) (left : Node) :
    Parser (Node ⊕ Node) := do
  if ← checkOperator symbols then
    let token ← advance
    let right ← operand
    return .inl (.binary left right token.text)
  else return .inr left

/-- Operands with operators between them, grouped to the left. -/
def operation (symbols : List String) (operand : Parser Node) : Parser Node := do
  loop (operatorStep symbols operand) (← operand)

/-- A product. -/
def product (expression : Parser Node) : Parser Node :=
  operation multiplicative (callOrMember expression)

/-- A sum. -/
def sum (expression : Parser Node) : Parser Node :=
  operation additive (product expression)

/-- One more property of an object, unless the object ends. The properties are
collected in reverse. -/
def propertyStep (expression : Parser Node) (collected : List Property) :
    Parser (List Property ⊕ List Property) := do
  if ← check [.eof, .rbrace] then return .inr collected.reverse
  else
    let key ← expect .ident .propertyKey
    if ← accept [.comma] then return .inl (.shorthand key.text :: collected)
    else if ← check [.rbrace] then return .inl (.shorthand key.text :: collected)
    else
      let _ ← expect .colon .propertyColon
      let value ← expression
      if ← check [.rbrace] then return .inl (.pair key.text value :: collected)
      else
        let _ ← expect .comma .propertyEnd
        return .inl (.pair key.text value :: collected)

/-- An object literal, or else a sum. -/
def objectOrSum (expression : Parser Node) : Parser Node := do
  if ← check [.lbrace] then
    let _ ← advance
    let properties ← loop (propertyStep expression) []
    let _ ← expect .rbrace .objectClose
    return .object properties
  else sum expression

/-- An assignment, grouped to the right, or else what could be its target. -/
def assignment (expression : Parser Node) : Parser Node := do
  let left ← objectOrSum expression
  if ← accept [.equals] then return .assignment left (← expression)
  else return left

/-- An expression in which at most `depth` expressions are nested. -/
def nested : (depth : Nat) → Parser Node
  | 0 => throw .endless
  | depth + 1 => assignment (nested depth)

/-- An expression. -/
def expression : Parser Node :=
  fun s => nested (s.later.length + 1) s

end Scriptlet.Parser
