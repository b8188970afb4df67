import Scriptlet.Proofs.Environment.Lasting
import Scriptlet.Proofs.Evaluation.Expression

/-!
# The failures of programs of the grammar

A tree that was put together by hand may hold a datum that is no node, or an
operator that does not exist. A tree that the grammar derives holds neither, so
evaluating it fails only in the ways that the language provides for: by a name
that cannot be resolved, declared or assigned to, by a target that is no name,
or by a node that has no meaning yet.
-/

namespace Scriptlet

/-- The failures that the language provides for. -/
inductive EvalError.Proper : EvalError → Prop
  | unresolved (name : String) : Proper (.unresolved name)
  | redeclared (name : String) : Proper (.redeclared name)
  | constant (name : String) : Proper (.constant name)
  | target (node : Node) : Proper (.target node)
  | unsupported (node : Node) : Proper (.unsupported node)

namespace Eval

variable {α β : Type}

/-- Whether a computation fails only in the ways that the language provides
for. -/
def FailsProperly (x : Eval α) : Prop :=
  ∀ ⦃env env' : Environment⦄ ⦃e : EvalError⦄, x env = .error e env' → e.Proper

/-- A result is no failure. -/
theorem failsProperly_pure (a : α) : FailsProperly (pure a) := by
  rintro env env' e ⟨⟩

/-- A failure may be one that the language provides for. -/
theorem failsProperly_throw {e : EvalError} (he : e.Proper) :
    FailsProperly (throw e : Eval α) := by
  rintro env env' e' ⟨⟩
  exact he

/-- Computations one after the other fail as one of them does. -/
theorem FailsProperly.bind {x : Eval α} {f : α → Eval β} (hx : FailsProperly x)
    (hf : ∀ a, FailsProperly (f a)) : FailsProperly (x >>= f) := by
  intro env env' e h
  cases hresult : x env with
  | ok a env'' =>
    rw [bind_of_ok hresult] at h
    exact hf a h
  | error e' env'' =>
    rw [bind_of_error hresult] at h
    cases h
    exact hx hresult

/-- Looking up a name fails only if it cannot be resolved. -/
theorem failsProperly_lookup (name : String) : FailsProperly (lookup name) := by
  intro env env' e h
  rw [lookup_apply] at h
  cases hfind : env.find? name with
  | some v =>
    rw [hfind] at h
    cases h
  | none =>
    rw [hfind] at h
    cases h
    exact .unresolved name

/-- Assigning to a name fails only if it cannot be resolved, or is constant. -/
theorem failsProperly_assign (name : String) (value : Value) :
    FailsProperly (assign name value) := by
  intro env env' e h
  rw [assign_apply] at h
  cases hfind : env.find? name with
  | none =>
    rw [hfind] at h
    cases h
    exact .unresolved name
  | some v =>
    rw [hfind] at h
    cases hv : v.constant with
    | true =>
      simp only [hv, if_true] at h
      cases h
      exact .constant name
    | false =>
      simp only [hv, Bool.false_eq_true, if_false] at h
      cases h

/-- Declaring a name fails only if it is declared already. -/
theorem failsProperly_declare (name : String) (value : Value) (constant : Bool) :
    FailsProperly (declare name value constant) := by
  intro env env' e h
  rw [declare_apply] at h
  split at h
  · cases h
    exact .redeclared name
  · cases h

/-- The steps of expressions fail only in the ways that the language provides for. -/
theorem failsProperly_steps : StepClosed @FailsProperly where
  pure := failsProperly_pure
  bind := FailsProperly.bind
  lookup := failsProperly_lookup
  assign := failsProperly_assign
  target node := failsProperly_throw (.target node)
  unsupported node := failsProperly_throw (.unsupported node)

end Eval

open Eval

theorem IsStatement.failsProperly {n : Node} (h : IsStatement n) : FailsProperly n.eval := by
  cases h with
  | @declaration name constant value hvalue =>
    cases value with
    | none => exact failsProperly_declare name .null constant
    | some value =>
      exact ((hvalue value rfl).eval_closed failsProperly_steps).bind fun result =>
        failsProperly_declare name result constant
  | function _ => exact failsProperly_throw (.unsupported _)
  | expression hn => exact hn.eval_closed failsProperly_steps

/-- Statements one after the other fail as one of them does. -/
theorem failsProperly_evalBody {body : List Node} (h : ∀ n ∈ body, IsStatement n)
    (last : Value) : FailsProperly (evalBody last body) := by
  induction body generalizing last with
  | nil => exact failsProperly_pure last
  | cons n rest ih =>
    exact (h n List.mem_cons_self).failsProperly.bind
      (ih fun m hm => h m (List.mem_cons_of_mem n hm))

/-- A program of the grammar fails only in the ways that the language provides
for. -/
theorem Grammar.Program.failsProperly {w : List Symbol} {n : Node} (h : Program w n) :
    FailsProperly n.eval := by
  obtain ⟨body, rfl, hbody⟩ := h.exists_body
  exact failsProperly_evalBody hbody .null

end Scriptlet
