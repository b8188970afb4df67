import Scriptlet.Proofs.Environment.Lasting
import Scriptlet.Registry

/-!
# Global scopes

A global scope has the constants of its registry, in order. So truth values and
null have their names there, whatever native functions are registered.
-/

namespace Scriptlet

/-- Variables that can be declared one after the other are added in order. -/
theorem Scope.bindings_of_foldlM {declarations : List Variable} {scope result : Scope}
    (hscope : scope.Distinct) (h : declarations.foldlM Scope.declare scope = .ok result) :
    result.bindings = scope.bindings ++ declarations ∧ result.Distinct := by
  induction declarations generalizing scope with
  | nil =>
    obtain rfl : scope = result := Except.ok.inj h
    exact ⟨(List.append_nil _).symm, hscope⟩
  | cons v declarations ih =>
    rw [List.foldlM_cons] at h
    cases hbinds : scope.binds v.name with
    | true =>
      have hfail : scope.declare v = .error (.redeclared v.name) := by
        rw [Scope.declare, if_pos hbinds]
      rw [hfail] at h
      cases h
    | false =>
      have hdeclare : scope.declare v = .ok (scope.add v) := by
        rw [Scope.declare, if_neg (by simp [hbinds])]
      have hnew : v.name ∉ scope.names := Scope.binds_eq_false_iff.1 hbinds
      rw [hdeclare] at h
      obtain ⟨hbindings, hdistinct⟩ := ih (hscope.add hnew) h
      refine ⟨?_, hdistinct⟩
      rw [hbindings, Scope.add, List.append_assoc, List.singleton_append]

/-- A global scope has the constants of the registry. -/
theorem Registry.globalScope_eq_ok {registry : Registry} {scope : Scope}
    (h : registry.globalScope = .ok scope) :
    scope.bindings = registry.globals ∧ scope.Distinct :=
  @Scope.bindings_of_foldlM registry.globals .empty scope Scope.distinct_empty h

/-- Whether truth values and null have their names in an environment. -/
structure Environment.NamesLiterals (env : Environment) : Prop where
  /-- The name of a truth value. -/
  bool (value : Bool) : Eval.lookup (Value.bool value).print env = .ok (.bool value) env
  /-- The name of null. -/
  null : Eval.lookup Value.null.print env = .ok .null env

/-- Truth values and null have their names in a global scope. -/
theorem Registry.namesLiterals {registry : Registry} {scope : Scope}
    (h : registry.globalScope = .ok scope) : (Environment.root scope).NamesLiterals := by
  obtain ⟨hbindings, -⟩ := globalScope_eq_ok h
  have hfind (name : String) :
      (Environment.root scope).find? name = registry.globals.find? fun v => v.name = name := by
    rw [Environment.find?, Scope.find?, hbindings]
  constructor
  · intro value
    rw [Eval.lookup_apply, hfind]
    cases value <;> rfl
  · rw [Eval.lookup_apply, hfind]
    rfl

end Scriptlet
