import Scriptlet.Script

/-!
# Sessions with many environments

A session holds a forest of scopes, numbered in the order of their creation,
and the registry of native functions. A scope is created on its own, inside
another one, or as a global scope. Every other command concerns the
environment of one scope: that scope and those around it. What the command
does to this environment is written back to the scopes that it consists of,
also when the command fails.
-/

namespace Scriptlet

/-- A scope with the numbers of the scopes around it. -/
structure Place where
  /-- The scope. -/
  scope : Scope
  /-- The scopes around it, from the innermost one on. -/
  ancestors : List Nat

/-- Scopes and native functions. -/
structure Session where
  /-- The scopes, by number. -/
  places : List Place
  /-- The native functions that a new global scope has. -/
  registry : Registry

/-- What can be asked of a session. -/
inductive Command where
  /-- Creates a global scope. -/
  | createGlobal
  /-- Creates a scope without variables. -/
  | createRoot
  /-- Creates a scope inside another one. -/
  | createChild (parent : Nat)
  /-- Declares a variable. -/
  | declare (place : Nat) (name : String) (value : Value) (constant : Bool)
  /-- Assigns to a variable. -/
  | assign (place : Nat) (name : String) (value : Value)
  /-- Asks for the value of a name. -/
  | lookup (place : Nat) (name : String)
  /-- Asks for the scope that has a name. -/
  | resolve (place : Nat) (name : String)
  /-- Runs a source text. -/
  | run (place : Nat) (source : String)
  /-- Evaluates a node. -/
  | evaluate (place : Nat) (node : Node)
  /-- Calls the native function that is the value of a name. -/
  | call (place : Nat) (name : String) (arguments : List Value) (time : Int)
  /-- Registers a native function that always gives the same value. -/
  | register (name : String) (result : Value)
  /-- Asks for the variables of a scope. -/
  | inspect (place : Nat)

/-- What a session answers. -/
inductive Reply where
  /-- The number of a scope. -/
  | place (number : Nat)
  /-- A value. -/
  | value (result : Value)
  /-- The result of a call and what it printed. -/
  | called (result : Value) (printed : String)
  /-- The names of the native functions. -/
  | registered (names : List String)
  /-- The variables of a scope, and whether no other one encloses it. -/
  | contents (scope : Scope) (isRoot : Bool)
  /-- The command failed. -/
  | failed (failure : Failure)
  /-- The name has a value that is no native function. -/
  | notCallable (result : Value)
  /-- There is no scope with that number. -/
  | noPlace

namespace Session

/-- A session without scopes. -/
def start : Session :=
  ⟨[], .standard⟩

/-- The numbers of the scopes that make up an environment. -/
def path (s : Session) (place : Nat) : List Nat :=
  match s.places[place]? with
  | some found => place :: found.ancestors
  | none => []

/-- The environment of a scope. -/
def environment? (s : Session) (place : Nat) : Option Environment :=
  s.places[place]?.map fun found =>
    .ofScopes found.scope
      (found.ancestors.filterMap fun number => s.places[number]?.map (·.scope))

/-- Replaces the scope with a given number. -/
def setScope (s : Session) (number : Nat) (scope : Scope) : Session :=
  { s with places := s.places.modify number fun found => { found with scope := scope } }

/-- Writes the scopes of an environment back. -/
def store (s : Session) (place : Nat) (env : Environment) : Session :=
  ((s.path place).zip env.scopes).foldl (fun s entry => s.setScope entry.1 entry.2) s

/-- Adds a scope and answers with its number. -/
def add (s : Session) (scope : Scope) (ancestors : List Nat) : Reply × Session :=
  (.place s.places.length, { s with places := s.places ++ [⟨scope, ancestors⟩] })

/-- Does something in the environment of a scope and answers with its
value. -/
def inEnvironment (s : Session) (place : Nat)
    (action : EStateM Failure Environment Reply) : Reply × Session :=
  match s.environment? place with
  | none => (.noPlace, s)
  | some env =>
    match action env with
    | .ok reply env => (reply, s.store place env)
    | .error failure env => (.failed failure, s.store place env)

/-- An evaluation as part of a session. -/
def lift {α : Type} (action : Eval α) : EStateM Failure Environment α :=
  fun env =>
    match action env with
    | .ok result env => .ok result env
    | .error error env => .error (.evaluation error) env

/-- Carries out a command. -/
def perform (s : Session) : Command → Reply × Session
  | .createGlobal =>
    match s.registry.globalScope with
    | .ok scope => s.add scope []
    | .error error => (.failed (.evaluation error), s)
  | .createRoot => s.add .empty []
  | .createChild parent => s.add .empty (s.path parent)
  | .declare place name value constant =>
    s.inEnvironment place (.value <$> lift (Eval.declare name value constant))
  | .assign place name value =>
    s.inEnvironment place (.value <$> lift (Eval.assign name value))
  | .lookup place name =>
    s.inEnvironment place (.value <$> lift (Eval.lookup name))
  | .resolve place name =>
    s.inEnvironment place do
      match (← get).depth? name with
      | none => throw (.evaluation (.unresolved name))
      | some depth => return .place ((s.path place).getD depth place)
  | .run place source =>
    s.inEnvironment place (.value <$> Scriptlet.run source)
  | .evaluate place node =>
    s.inEnvironment place (.value <$> Scriptlet.evaluate node)
  | .call place name arguments time =>
    s.inEnvironment place do
      match ← lift (Eval.lookup name) with
      | .native _ behaviour =>
        let (result, printed) := behaviour.call arguments time
        return .called result printed
      | other => return .notCallable other
  | .register name result =>
    let registry := s.registry.register name (.always result)
    (.registered registry.names, { s with registry := registry })
  | .inspect place =>
    match s.places[place]? with
    | some found => (.contents found.scope found.ancestors.isEmpty, s)
    | none => (.noPlace, s)

/-- Carries out commands one after the other. -/
def performAll (s : Session) : List Command → List Reply × Session
  | [] => ([], s)
  | command :: rest =>
    let (reply, s) := s.perform command
    let (replies, s) := s.performAll rest
    (reply :: replies, s)

end Session

end Scriptlet
