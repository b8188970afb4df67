import Scriptlet.Proofs.Environment.Access

/-!
# The form of an environment

The form of a scope is what is left of it without the values: the names of its
variables, in the order of their declaration, and which of them are constant.
The form of an environment decides which names can be looked up, assigned to
and declared. Assignments do not change it, and declarations change it in the
same way whatever the value is.
-/

namespace Scriptlet

/-- The names of the variables with whether each is constant, in the order of
their declaration. -/
def Scope.form (s : Scope) : List (String × Bool) :=
  s.bindings.map fun v => (v.name, v.constant)

/-- The forms of the scopes, from the innermost one on. -/
def Environment.form (env : Environment) : List (List (String × Bool)) :=
  env.scopes.map Scope.form

namespace Scope

variable {s t : Scope}

/-- The names are part of the form. -/
theorem map_fst_form (s : Scope) : s.form.map (·.1) = s.names := by
  simp [form, names]

/-- Which names are constants can be read off the form. -/
theorem map_fst_filter_form (s : Scope) : (s.form.filter (·.2)).map (·.1) = s.constants := by
  simp [form, constants, List.filter_map, Function.comp_def]

/-- Scopes of the same form have the same names. -/
theorem names_eq_of_form (h : s.form = t.form) : s.names = t.names := by
  rw [← map_fst_form, ← map_fst_form, h]

/-- Adding a variable adds its name and constancy to the form. -/
theorem form_add (s : Scope) (v : Variable) :
    (s.add v).form = s.form ++ [(v.name, v.constant)] := by
  simp [form, add]

/-- Giving a variable another value does not change the form. -/
theorem form_set (s : Scope) (name : String) (value : Value) :
    (s.set name value).form = s.form := by
  unfold set form
  rw [List.map_map]
  refine List.map_congr_left fun v _ => ?_
  by_cases hv : v.name = name <;> simp [hv]

/-- Whether the variable of a name is constant can be read off the form. -/
theorem constant_find? (s : Scope) (name : String) :
    (s.find? name).map (·.constant) = (s.form.find? fun entry => entry.1 = name).map (·.2) := by
  unfold find? form
  rw [List.find?_map]
  simp [Function.comp_def]

end Scope

namespace Environment

variable {env env' : Environment}

/-- A name means the variable in the first scope that has one. -/
theorem find?_eq_findSome? (env : Environment) (name : String) :
    env.find? name = env.scopes.findSome? (Scope.find? · name) := by
  induction env with
  | root scope => cases h : scope.find? name <;> simp [find?, scopes, h]
  | child scope parent ih => cases h : scope.find? name <;> simp [find?, scopes, h, ih]

/-- Whether a name means a constant can be read off the form. -/
theorem constant_find? (env : Environment) (name : String) :
    (env.find? name).map (·.constant) =
      env.form.findSome? fun scope => (scope.find? fun entry => entry.1 = name).map (·.2) := by
  rw [find?_eq_findSome?, form, List.findSome?_map, List.map_findSome?]
  congr 1
  funext scope
  exact Scope.constant_find? scope name

/-- In environments of the same form a name means nothing in both, or variables
that are both constant or both not. -/
theorem constant_find?_eq_of_form (h : env.form = env'.form) (name : String) :
    (env.find? name).map (·.constant) = (env'.find? name).map (·.constant) := by
  rw [constant_find?, constant_find?, h]

/-- The form of an environment is that of its innermost scope and those of the
others. -/
theorem form_eq_cons (env : Environment) :
    ∃ outer, env.form = env.innermost.form :: outer ∧
      ∀ scope : Scope, (env.withInnermost scope).form = scope.form :: outer := by
  obtain ⟨outer, hscopes, hwith⟩ := env.scopes_eq_cons
  refine ⟨outer.map Scope.form, ?_, fun scope => ?_⟩
  · rw [form, hscopes, List.map_cons]
  · rw [form, hwith, List.map_cons]

/-- In environments of the same form the innermost scopes have the same names. -/
theorem binds_innermost_eq_of_form (h : env.form = env'.form) (name : String) :
    env.innermost.binds name = env'.innermost.binds name := by
  obtain ⟨outer, hform, -⟩ := env.form_eq_cons
  obtain ⟨outer', hform', -⟩ := env'.form_eq_cons
  rw [hform, hform'] at h
  exact Scope.binds_eq_of_names (Scope.names_eq_of_form (List.cons.inj h).1) name

/-- An assignment does not change the form. -/
theorem form_set (env : Environment) (name : String) (value : Value) :
    (env.set name value).form = env.form := by
  induction env with
  | root scope => simp [form, scopes, set, Scope.form_set]
  | child scope parent ih =>
    simp only [form] at ih
    by_cases hscope : scope.binds name = true
    · simp [form, scopes, set, hscope, Scope.form_set]
    · simp [form, scopes, set, hscope, ih]

/-- Declarations that differ only in the value keep environments in the same
form. -/
theorem form_declare_eq (h : env.form = env'.form) {v v' : Variable} (hname : v.name = v'.name)
    (hconstant : v.constant = v'.constant) :
    (env.withInnermost (env.innermost.add v)).form =
      (env'.withInnermost (env'.innermost.add v')).form := by
  obtain ⟨outer, hform, hwith⟩ := env.form_eq_cons
  obtain ⟨outer', hform', hwith'⟩ := env'.form_eq_cons
  rw [hform, hform'] at h
  obtain ⟨hinner, houter⟩ := List.cons.inj h
  rw [hwith, hwith', Scope.form_add, Scope.form_add, hinner, houter, hname, hconstant]

end Environment

end Scriptlet
