import Scriptlet.Evaluation
import Scriptlet.Proofs.Environment.Lasting
import Scriptlet.Proofs.Fault

/-!
# Evaluating with partial operations

Three operations of an evaluation are not defined everywhere: a scope gives the
variable of a name only if it has one, a quotient exists only if the divisor is
not zero, and a remainder only if, moreover, the dividend is finite. Evaluation
guards them: it looks for a scope that has the name first, and answers for
zeros and infinities itself. So a checked evaluation has no faults, and comes to
the same as an evaluation in which the operations are defined everywhere.
-/

namespace Scriptlet

namespace Checked

open Number (parts ofParts nan)

/-- The quotient of a division, the divisor of which is not zero. -/
def divide (a b : Float) : Except Fault Float :=
  match parts b with
  | .zero _ => .error .quotient
  | _ => .ok (a / b)

/-- The quotient of any division: an infinity or not a number if the divisor is
zero. -/
def quotient (a b : Float) : Except Fault Float :=
  match parts b with
  | .zero divisor =>
    match parts a with
    | .notANumber | .zero _ => .ok nan
    | .infinity dividend | .finite dividend _ _ _ =>
      .ok (ofParts (.infinity (dividend / divisor)))
  | _ => divide a b

/-- The remainder of a division, the dividend of which is not infinite and the
divisor of which is not zero. -/
def divideRemainder (a b : Float) : Except Fault Float :=
  match parts a, parts b with
  | .infinity _, _ => .error .remainder
  | _, .zero _ => .error .remainder
  | _, _ => .ok (Number.remainder a b)

/-- The remainder of any division: not a number if there is none, and the
dividend if the divisor is infinite. -/
def remainder (a b : Float) : Except Fault Float :=
  match parts a, parts b with
  | .notANumber, _ | .infinity _, _ | _, .notANumber | _, .zero _ => .ok nan
  | _, .infinity _ => .ok a
  | _, _ => divideRemainder a b

/-- The result of an operator on two numbers; `none` for a text that is no
operator. -/
def operate? (symbol : String) (a b : Float) : Except Fault (Option Float) :=
  match symbol with
  | "/" => (quotient a b).map some
  | "%" => (remainder a b).map some
  | _ => .ok (Number.operate? symbol a b)

/-- The quotient of any division is that of doubles. -/
theorem quotient_eq (a b : Float) : quotient a b = .ok (a / b) := by
  have hdiv : a / b =
      ofParts (.div Float.Model.Format.binary64 (parts a) (parts b)) := rfl
  unfold quotient divide
  rw [hdiv]
  cases parts b with
  | zero divisor => cases parts a <;> rfl
  | _ => rfl

/-- The remainder of any division is the exact one. -/
theorem remainder_eq (a b : Float) : remainder a b = .ok (Number.remainder a b) := by
  unfold remainder divideRemainder Number.remainder
  cases parts a <;> cases parts b <;> rfl

/-- Operators have no faults. -/
theorem operate?_eq (symbol : String) (a b : Float) :
    operate? symbol a b = .ok (Number.operate? symbol a b) := by
  unfold operate?
  split
  · rw [quotient_eq]
    rfl
  · rw [remainder_eq]
    rfl
  · rfl

/-- A scope of the chain, by the number of those inside it. -/
def scopeAt (env : Environment) (depth : Nat) : Except Fault Scope :=
  match env.scopes[depth]? with
  | some scope => .ok scope
  | none => .error .scope

/-- The variable of a name, in a scope that has it. -/
def variableOf (name : String) (scope : Scope) : Except Fault Variable :=
  match scope.find? name with
  | some v => .ok v
  | none => .error (.variable name)

/-- The variable that a name means, in the scope of the chain that has it. -/
def resolve (name : String) : Checked EvalError Environment Variable := do
  let env ← get
  match env.depth? name with
  | none => throw (.inr (.unresolved name))
  | some depth => ofExcept (scopeAt env depth >>= variableOf name)

/-- The value of a name. -/
def lookup (name : String) : Checked EvalError Environment Value := do
  let v ← resolve name
  return v.value

/-- Assigns a value to a name, and gives the value back. -/
def assign (name : String) (value : Value) : Checked EvalError Environment Value := do
  let v ← resolve name
  if v.constant then throw (.inr (.constant name))
  else
    modify (Environment.set name value)
    return value

/-- The scope that is found for a name has the variable that the name means. -/
theorem exists_of_depth? {name : String} {env : Environment} {depth : Nat}
    (h : env.depth? name = some depth) :
    ∃ scope v, env.scopes[depth]? = some scope ∧ scope.find? name = some v ∧
      env.find? name = some v := by
  induction env generalizing depth with
  | root scope =>
    rw [Environment.depth?] at h
    split at h
    · rename_i hbinds
      obtain rfl := Option.some.inj h
      obtain ⟨v, hv⟩ := Option.isSome_iff_exists.1 hbinds
      exact ⟨scope, v, rfl, hv, hv⟩
    · cases h
  | child scope parent ih =>
    rw [Environment.depth?] at h
    split at h
    · rename_i hbinds
      obtain rfl := Option.some.inj h
      obtain ⟨v, hv⟩ := Option.isSome_iff_exists.1 hbinds
      exact ⟨scope, v, rfl, hv, by rw [Environment.find?, hv]⟩
    · rename_i hbinds
      obtain ⟨outer, houter, rfl⟩ := Option.map_eq_some_iff.1 h
      obtain ⟨owner, v, hscope, hv, hfind⟩ := ih houter
      have hnone : scope.find? name = none := by simpa [Scope.binds] using hbinds
      exact ⟨owner, v, hscope, hv, by rw [Environment.find?, hnone]; exact hfind⟩

/-- A name for which no scope is found means nothing. -/
theorem find?_of_depth? {name : String} {env : Environment} (h : env.depth? name = none) :
    env.find? name = none := by
  induction env with
  | root scope =>
    rw [Environment.depth?] at h
    split at h
    · cases h
    · rename_i hbinds
      simpa [Environment.find?, Scope.binds] using hbinds
  | child scope parent ih =>
    rw [Environment.depth?] at h
    split at h
    · cases h
    · rename_i hbinds
      have hnone : scope.find? name = none := by simpa [Scope.binds] using hbinds
      rw [Environment.find?, hnone]
      exact ih (Option.map_eq_none_iff.1 h)

/-- Resolving a name has no faults. -/
theorem resolve_apply (name : String) (env : Environment) :
    resolve name env =
      match env.find? name with
      | some v => .ok v env
      | none => .error (.inr (.unresolved name)) env := by
  have hget : ∀ {f : Environment → Checked EvalError Environment Variable},
      (get >>= f) env = f env env := rfl
  rw [resolve, hget]
  cases hdepth : env.depth? name with
  | none =>
    rw [find?_of_depth? hdepth]
    rfl
  | some depth =>
    obtain ⟨scope, v, hscope, hv, hfind⟩ := exists_of_depth? hdepth
    have hboth : scopeAt env depth >>= variableOf name = .ok v := by
      rw [scopeAt, hscope]
      change variableOf name scope = .ok v
      rw [variableOf, hv]
    rw [hfind]
    dsimp only
    rw [hboth]
    rfl

/-- Looking up a name has no faults. -/
theorem lookup_eq (name : String) : lookup name = lift (Eval.lookup name) := by
  funext env
  have hresolve := resolve_apply name env
  unfold lift
  rw [Eval.lookup_apply]
  cases hfind : env.find? name with
  | some v =>
    rw [hfind] at hresolve
    exact bind_of_ok hresolve
  | none =>
    rw [hfind] at hresolve
    exact bind_of_error hresolve

/-- Assigning to a name has no faults. -/
theorem assign_eq (name : String) (value : Value) :
    assign name value = lift (Eval.assign name value) := by
  funext env
  have hresolve := resolve_apply name env
  unfold lift
  rw [Eval.assign_apply]
  cases hfind : env.find? name with
  | none =>
    rw [hfind] at hresolve
    exact bind_of_error hresolve
  | some v =>
    rw [hfind] at hresolve
    rw [assign, bind_of_ok hresolve]
    dsimp only
    cases v.constant <;> rfl

/-- The value of an operator between two values. -/
def operate (symbol : String) : Value → Value → Checked EvalError Environment Value
  | .number a, .number b => do
    match ← ofExcept (operate? symbol a b) with
    | some result => return .number result
    | none => throw (.inr (.unknownOperator symbol))
  | _, _ => return .null

mutual

/-- Evaluates a node. -/
def eval : Node → Checked EvalError Environment Value
  | .number value => return .number value
  | .identifier name => lookup name
  | .object properties => return .object (← evalProperties [] properties)
  | .assignment (.identifier name) value => do
    let result ← eval value
    assign name result
  | .assignment target _ => throw (.inr (.target target))
  | .binary left right operator => do
    let a ← eval left
    let b ← eval right
    operate operator a b
  | .declaration name constant (some value) => do
    let result ← eval value
    lift (Eval.declare name result constant)
  | .declaration name constant none => lift (Eval.declare name .null constant)
  | .program body => evalBody .null body
  | .foreign datum => throw (.inr (.foreign datum))
  | .function name parameters body => throw (.inr (.unsupported (.function name parameters body)))
  | .call callee arguments => throw (.inr (.unsupported (.call callee arguments)))
  | .member object property computed =>
    throw (.inr (.unsupported (.member object property computed)))
  | .property content => throw (.inr (.unsupported (.property content)))

/-- Evaluates statements one after the other. -/
def evalBody (last : Value) : List Node → Checked EvalError Environment Value
  | [] => return last
  | node :: rest => do
    let value ← eval node
    evalBody value rest

/-- Evaluates properties one after the other and adds them to those before. -/
def evalProperties (entries : List (String × Value)) :
    List Property → Checked EvalError Environment (List (String × Value))
  | [] => return entries
  | .shorthand key :: rest => do
    let value ← lookup key
    evalProperties (setKey key value entries) rest
  | .pair key node :: rest => do
    let value ← eval node
    evalProperties (setKey key value entries) rest

end

/-- Operators between values have no faults. -/
theorem operate_eq (symbol : String) (a b : Value) :
    operate symbol a b = lift (Eval.operate symbol a b) := by
  cases a with
  | number x =>
    cases b with
    | number y =>
      rw [operate, Eval.operate, operate?_eq]
      change (match Number.operate? symbol x y with
        | some result => _
        | none => _) = _
      cases Number.operate? symbol x y <;> rfl
    | _ => rfl
  | _ => rfl

mutual

/-- Evaluating a node has no faults. -/
theorem eval_eq (n : Node) : eval n = lift n.eval := by
  match n with
  | .number value => rfl
  | .identifier name => exact lookup_eq name
  | .object properties =>
    rw [eval, Node.eval, lift_bind, evalProperties_eq]
    rfl
  | .assignment target value =>
    cases target with
    | identifier name =>
      rw [eval, Node.eval, lift_bind, eval_eq value]
      simp only [assign_eq]
    | _ => rfl
  | .binary left right operator =>
    rw [eval, Node.eval, lift_bind, eval_eq left]
    simp only [lift_bind, eval_eq right, operate_eq]
  | .declaration name constant (some value) => rw [eval, Node.eval, lift_bind, eval_eq value]
  | .declaration name constant none => rfl
  | .program body => exact evalBody_eq .null body
  | .foreign datum => rfl
  | .function name parameters body => rfl
  | .call callee arguments => rfl
  | .member object property computed => rfl
  | .property content => rfl

/-- Evaluating statements has no faults. -/
theorem evalBody_eq (last : Value) (body : List Node) :
    evalBody last body = lift (Scriptlet.evalBody last body) := by
  match body with
  | [] => rfl
  | node :: rest =>
    rw [evalBody, Scriptlet.evalBody, lift_bind, eval_eq node]
    simp only [evalBody_eq _ rest]

/-- Evaluating properties has no faults. -/
theorem evalProperties_eq (entries : List (String × Value)) (properties : List Property) :
    evalProperties entries properties = lift (Scriptlet.evalProperties entries properties) := by
  match properties with
  | [] => rfl
  | .shorthand key :: rest =>
    rw [evalProperties, Scriptlet.evalProperties, lift_bind, lookup_eq]
    simp only [evalProperties_eq _ rest]
  | .pair key node :: rest =>
    rw [evalProperties, Scriptlet.evalProperties, lift_bind, eval_eq node]
    simp only [evalProperties_eq _ rest]

end

end Checked

end Scriptlet
