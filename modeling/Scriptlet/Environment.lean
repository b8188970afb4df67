import Scriptlet.Node
import Scriptlet.Text.Quoted
import Scriptlet.Value

/-!
# Scopes and environments

A scope holds variables in the order of their declaration. Being constant is a
mark on a variable, and there is no second collection of constant names beside
the variables, so that the constants of a scope are among its names by
representation. An environment is a chain of scopes, from the innermost to the
outermost one. A name means the variable of that name in the first scope of the
chain that has one; declaring a name concerns the innermost scope only.
-/

namespace Scriptlet

/-- Why a program cannot be evaluated. -/
inductive EvalError where
  /-- A name that no scope has. -/
  | unresolved (name : String)
  /-- A name that the scope has already. -/
  | redeclared (name : String)
  /-- An assignment to a constant. -/
  | constant (name : String)
  /-- An assignment to something that is no name. -/
  | target (node : Node)
  /-- A node that has no meaning yet. -/
  | unsupported (node : Node)
  /-- A datum that is no node. -/
  | foreign (datum : Datum)
  /-- An operator that does not exist. -/
  | unknownOperator (symbol : String)

namespace EvalError

/-- The message of the error. -/
def message : EvalError → String
  | unresolved name => s!"Cannot resolve '{name}' as it does not exist"
  | redeclared name => s!"Cannot declare variable '{name}' as it is already defined"
  | constant name => s!"Cannot assign to '{name}' as it was declared constant"
  | target node => s!"Invalid left-hand side in assignment: {node.kind}"
  | unsupported node => s!"{node.kind} nodes cannot be evaluated yet"
  | foreign datum => s!"Not an AST node: {datum.typeName}"
  | unknownOperator symbol => s!"Unknown numeric operator {Text.quoted symbol}"

end EvalError

/-- A variable. -/
structure Variable where
  /-- Its name. -/
  name : String
  /-- Its value. -/
  value : Value
  /-- Whether it keeps its value for ever. -/
  constant : Bool

/-- The variables of a scope, in the order of their declaration. -/
structure Scope where
  /-- The variables. -/
  bindings : List Variable

namespace Scope

/-- A scope without variables. -/
def empty : Scope :=
  ⟨[]⟩

/-- The names of the variables. -/
def names (s : Scope) : List String :=
  s.bindings.map (·.name)

/-- The names of the constants. -/
def constants (s : Scope) : List String :=
  (s.bindings.filter (·.constant)).map (·.name)

/-- The names of the constants in the order of their code points. -/
def sortedConstants (s : Scope) : List String :=
  s.constants.mergeSort fun a b => a ≤ b

/-- The variable of a name. -/
def find? (s : Scope) (name : String) : Option Variable :=
  s.bindings.find? fun v => v.name = name

/-- Whether the scope has a variable of that name. -/
def binds (s : Scope) (name : String) : Bool :=
  (s.find? name).isSome

/-- Adds a variable. -/
def add (s : Scope) (v : Variable) : Scope :=
  ⟨s.bindings ++ [v]⟩

/-- Gives the variable of a name another value. -/
def set (s : Scope) (name : String) (value : Value) : Scope :=
  ⟨s.bindings.map fun v => if v.name = name then { v with value := value } else v⟩

/-- Declares a variable, whose name has to be new in the scope. -/
def declare (s : Scope) (v : Variable) : Except EvalError Scope :=
  if s.binds v.name then .error (.redeclared v.name) else .ok (s.add v)

end Scope

/-- A chain of scopes. -/
inductive Environment where
  /-- A scope that no other one encloses. -/
  | root (scope : Scope)
  /-- A scope inside an environment. -/
  | child (scope : Scope) (parent : Environment)

namespace Environment

/-- The innermost scope. -/
def innermost : Environment → Scope
  | root scope => scope
  | child scope _ => scope

/-- The environment with another innermost scope. -/
def withInnermost (scope : Scope) : Environment → Environment
  | root _ => root scope
  | child _ parent => child scope parent

/-- The scopes, from the innermost one on. -/
def scopes : Environment → List Scope
  | root scope => [scope]
  | child scope parent => scope :: parent.scopes

/-- The environment of a scope inside others, from the innermost one on. -/
def ofScopes (scope : Scope) : List Scope → Environment
  | [] => root scope
  | parent :: outer => child scope (ofScopes parent outer)

/-- The scopes of an environment are those that it is made of. -/
@[simp]
theorem scopes_ofScopes (scope : Scope) (outer : List Scope) :
    (ofScopes scope outer).scopes = scope :: outer := by
  induction outer generalizing scope with
  | nil => rfl
  | cons parent outer ih => simp only [ofScopes, scopes, ih]

/-- The variable that a name means. -/
def find? (name : String) : Environment → Option Variable
  | root scope => scope.find? name
  | child scope parent =>
    match scope.find? name with
    | some v => some v
    | none => parent.find? name

/-- How many scopes stand before the one that has the name. -/
def depth? (name : String) : Environment → Option Nat
  | root scope => if scope.binds name then some 0 else none
  | child scope parent =>
    if scope.binds name then some 0 else (parent.depth? name).map (· + 1)

/-- Gives the variable that a name means another value. -/
def set (name : String) (value : Value) : Environment → Environment
  | root scope => root (scope.set name value)
  | child scope parent =>
    if scope.binds name then child (scope.set name value) parent
    else child scope (parent.set name value)

end Environment

/-- A computation that reads and changes an environment. What it has changed
before it fails stays changed. -/
abbrev Eval := EStateM EvalError Environment

namespace Eval

/-- The value of a name. -/
def lookup (name : String) : Eval Value := do
  match (← get).find? name with
  | some v => return v.value
  | none => throw (.unresolved name)

/-- Assigns a value to a name, and gives the value back. -/
def assign (name : String) (value : Value) : Eval Value := do
  match (← get).find? name with
  | none => throw (.unresolved name)
  | some v =>
    if v.constant then throw (.constant name)
    else
      modify (Environment.set name value)
      return value

/-- Declares a name in the innermost scope, and gives the value back. -/
def declare (name : String) (value : Value) (constant : Bool) : Eval Value := do
  match (← get).innermost.declare ⟨name, value, constant⟩ with
  | .error e => throw e
  | .ok scope =>
    modify (Environment.withInnermost scope)
    return value

end Eval

end Scriptlet
