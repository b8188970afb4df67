import Scriptlet.Evaluation
import Scriptlet.Proofs.Environment.Lasting

/-!
# The declarations of an evaluation

Evaluating a node declares variables in the innermost scope: those of the
declarations that are reached, with the values they have there, up to the one
that fails. Nothing else that lasts is changed, whether the evaluation succeeds
or fails.
-/

namespace Scriptlet

open Eval

mutual

/-- The variables that evaluating a node declares, in order. -/
def Node.declared : Node → Environment → List Variable
  | .object properties, env => declaredByProperties properties env
  | .assignment (.identifier _) value, env => value.declared env
  | .binary left right _, env =>
    left.declared env ++ onSuccess left.eval (fun _ env => right.declared env) env
  | .declaration name constant (some value), env =>
    value.declared env ++
      onSuccess value.eval (fun result env => Eval.declared ⟨name, result, constant⟩ env) env
  | .declaration name constant none, env => Eval.declared ⟨name, .null, constant⟩ env
  | .program body, env => declaredByBody body env
  | _, _ => []

/-- The variables that evaluating statements declares, in order. -/
def declaredByBody : List Node → Environment → List Variable
  | [], _ => []
  | node :: rest, env =>
    node.declared env ++ onSuccess node.eval (fun _ env => declaredByBody rest env) env

/-- The variables that evaluating properties declares, in order. -/
def declaredByProperties : List Property → Environment → List Variable
  | [], _ => []
  | .shorthand key :: rest, env =>
    onSuccess (Eval.lookup key) (fun _ env => declaredByProperties rest env) env
  | .pair _ node :: rest, env =>
    node.declared env ++ onSuccess node.eval (fun _ env => declaredByProperties rest env) env

end

/-- An operator declares nothing. -/
theorem declares_operate (symbol : String) (a b : Value) :
    Declares (Eval.operate symbol a b) fun _ => [] := by
  refine declares_of_after fun env => ?_
  unfold Eval.operate
  split
  · split <;> rfl
  · rfl

mutual

/-- Evaluating a node declares its variables and changes nothing else that
lasts. -/
theorem Node.eval_declares (n : Node) : Declares n.eval n.declared := by
  match n with
  | .number value => exact declares_pure _
  | .identifier name => exact declares_lookup name
  | .object properties =>
    exact (evalProperties_declares [] properties).bind_idle fun entries => declares_pure _
  | .assignment target value =>
    cases target with
    | identifier name =>
      exact (Node.eval_declares value).bind_idle fun result => declares_assign name result
    | _ => exact declares_throw _
  | .binary left right operator =>
    exact (Node.eval_declares left).bind fun a =>
      (Node.eval_declares right).bind_idle fun b => declares_operate operator a b
  | .declaration name constant (some value) =>
    exact (Node.eval_declares value).bind fun result => declares_declare name result constant
  | .declaration name constant none => exact declares_declare name .null constant
  | .program body => exact evalBody_declares .null body
  | .foreign datum => exact declares_throw _
  | .function name parameters body => exact declares_throw _
  | .call callee arguments => exact declares_throw _
  | .member object property computed => exact declares_throw _
  | .property content => exact declares_throw _

/-- Evaluating statements declares their variables. -/
theorem evalBody_declares (last : Value) (body : List Node) :
    Declares (evalBody last body) (declaredByBody body) := by
  match body with
  | [] => exact declares_pure _
  | node :: rest =>
    exact (Node.eval_declares node).bind fun value => evalBody_declares value rest

/-- Evaluating properties declares their variables. -/
theorem evalProperties_declares (entries : List (String × Value)) (properties : List Property) :
    Declares (evalProperties entries properties) (declaredByProperties properties) := by
  match properties with
  | [] => exact declares_pure _
  | .shorthand key :: rest =>
    exact (declares_lookup key).bind fun value => evalProperties_declares _ rest
  | .pair key node :: rest =>
    exact (Node.eval_declares node).bind fun value => evalProperties_declares _ rest

end

end Scriptlet
