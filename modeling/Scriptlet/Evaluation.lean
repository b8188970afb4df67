import Scriptlet.Environment
import Scriptlet.Number.Operator

/-!
# Evaluation

Evaluating a node gives a value and may change the environment. Operands,
properties and statements are evaluated from left to right. An operator
between values that are not both numbers gives null. Functions, calls and
members are not evaluated.
-/

namespace Scriptlet

/-- The value of an operator between two values. -/
def Eval.operate (symbol : String) : Value → Value → Eval Value
  | .number a, .number b =>
    match Number.operate? symbol a b with
    | some result => return .number result
    | none => throw (.unknownOperator symbol)
  | _, _ => return .null

mutual

/-- Evaluates a node. -/
def Node.eval : Node → Eval Value
  | .number value => return .number value
  | .identifier name => Eval.lookup name
  | .object properties => return .object (← evalProperties [] properties)
  | .assignment (.identifier name) value => do
    let result ← value.eval
    Eval.assign name result
  | .assignment target _ => throw (.target target)
  | .binary left right operator => do
    let a ← left.eval
    let b ← right.eval
    Eval.operate operator a b
  | .declaration name constant (some value) => do
    let result ← value.eval
    Eval.declare name result constant
  | .declaration name constant none => Eval.declare name .null constant
  | .program body => evalBody .null body
  | .foreign datum => throw (.foreign datum)
  | .function name parameters body => throw (.unsupported (.function name parameters body))
  | .call callee arguments => throw (.unsupported (.call callee arguments))
  | .member object property computed => throw (.unsupported (.member object property computed))
  | .property content => throw (.unsupported (.property content))

/-- Evaluates statements one after the other; the result is the value of the
last one, or the given value if there is none. -/
def evalBody (last : Value) : List Node → Eval Value
  | [] => return last
  | node :: rest => do
    let value ← node.eval
    evalBody value rest

/-- Evaluates properties one after the other and adds them to those before. A
key that was given already keeps its place and takes the new value. -/
def evalProperties (entries : List (String × Value)) :
    List Property → Eval (List (String × Value))
  | [] => return entries
  | .shorthand key :: rest => do
    let value ← Eval.lookup key
    evalProperties (setKey key value entries) rest
  | .pair key node :: rest => do
    let value ← node.eval
    evalProperties (setKey key value entries) rest

end

end Scriptlet
