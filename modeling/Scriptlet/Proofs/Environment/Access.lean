import Scriptlet.Proofs.Environment.Lasting

/-!
# What names mean after a change

An assignment gives a new value to the variable that the name means, and a
declaration adds a variable to the innermost scope. Here it is said what every
name means afterwards, and which names the innermost scope has.
-/

namespace Scriptlet

namespace Scope

variable {s : Scope} {name other : String} {v : Variable}

/-- A variable is found by its own name. -/
theorem name_of_find? (h : s.find? name = some v) : v.name = name := by
  simpa using List.find?_some h

/-- The variable that was given a value has it. -/
theorem find?_set_self (h : s.find? name = some v) (value : Value) :
    (s.set name value).find? name = some { v with value := value } := by
  have hname := name_of_find? h
  unfold set find?
  rw [List.find?_map]
  have hsame : ((fun w : Variable => decide (w.name = name)) ∘ fun w : Variable =>
      if w.name = name then { w with value := value } else w) =
        fun w => decide (w.name = name) := by
    funext w
    by_cases hw : w.name = name <;> simp [hw]
  rw [hsame]
  have hfind : s.bindings.find? (fun w => decide (w.name = name)) = some v := h
  simp [hfind, hname]

/-- The other variables stay as they are. -/
theorem find?_set_of_ne (h : other ≠ name) (value : Value) :
    (s.set name value).find? other = s.find? other := by
  unfold set find?
  induction s.bindings with
  | nil => rfl
  | cons w rest ih =>
    by_cases hw : w.name = name
    · have hne : w.name ≠ other := fun he => h (he.symm.trans hw)
      have hne' : name ≠ other := h.symm
      simpa [hw, hne, hne'] using ih
    · by_cases ho : w.name = other
      · simp [ho, h]
      · simpa [hw, ho] using ih

/-- Giving a variable a value adds no name and takes none away. -/
theorem names_set (s : Scope) (name : String) (value : Value) :
    (s.set name value).names = s.names := by
  unfold set names
  rw [List.map_map]
  refine List.map_congr_left fun w _ => ?_
  by_cases hw : w.name = name <;> simp [hw]

/-- A scope with the same names binds the same names. -/
theorem binds_eq_of_names {t : Scope} (h : s.names = t.names) (name : String) :
    s.binds name = t.binds name := by
  rw [Bool.eq_iff_iff, binds_iff, binds_iff, h]

/-- A new variable is found by its name. -/
theorem find?_add_self (h : s.binds v.name = false) : (s.add v).find? v.name = some v := by
  have hnone : s.bindings.find? (fun w => decide (w.name = v.name)) = none := by
    simpa [binds, find?] using h
  simp [add, find?, List.find?_append, hnone]

/-- Other names mean what they meant before a variable was added. -/
theorem find?_add_of_ne (h : name ≠ v.name) : (s.add v).find? name = s.find? name := by
  simp [add, find?, List.find?_append, h.symm]

end Scope

namespace Environment

variable {env : Environment} {name other : String} {v : Variable}

/-- The variable that was assigned to has the value. -/
theorem find?_set_self (h : env.find? name = some v) (value : Value) :
    (env.set name value).find? name = some { v with value := value } := by
  induction env with
  | root scope => exact Scope.find?_set_self h value
  | child scope parent ih =>
    cases hscope : scope.find? name with
    | some w =>
      obtain rfl : w = v := by simpa [find?, hscope] using h
      simp [set, find?, Scope.binds, hscope, Scope.find?_set_self hscope]
    | none =>
      have hparent : parent.find? name = some v := by simpa [find?, hscope] using h
      simp [set, find?, Scope.binds, hscope, ih hparent]

/-- Other names mean what they meant before an assignment. -/
theorem find?_set_of_ne (h : other ≠ name) (value : Value) :
    (env.set name value).find? other = env.find? other := by
  induction env with
  | root scope => exact Scope.find?_set_of_ne h value
  | child scope parent ih =>
    by_cases hscope : scope.binds name = true
    · simp [set, find?, hscope, Scope.find?_set_of_ne h]
    · simp [set, find?, hscope, ih]

/-- An assignment does not change which names the innermost scope has. -/
theorem binds_innermost_set (env : Environment) (name : String) (value : Value) (other : String) :
    (env.set name value).innermost.binds other = env.innermost.binds other := by
  cases env with
  | root scope => exact Scope.binds_eq_of_names (Scope.names_set scope name value) other
  | child scope parent =>
    by_cases hscope : scope.binds name = true
    · have hbinds := Scope.binds_eq_of_names (Scope.names_set scope name value) other
      simpa [set, innermost, hscope] using hbinds
    · simp [set, innermost, hscope]

/-- The innermost scope of an environment can be exchanged. -/
@[simp]
theorem innermost_withInnermost (scope : Scope) (env : Environment) :
    (env.withInnermost scope).innermost = scope := by
  cases env <;> rfl

/-- A name that is new in the innermost scope means the variable declared
there. -/
theorem find?_declare_self (h : env.innermost.binds v.name = false) :
    (env.withInnermost (env.innermost.add v)).find? v.name = some v := by
  have hfind := Scope.find?_add_self h
  cases env with
  | root scope => exact hfind
  | child scope parent =>
    rw [innermost] at hfind
    simp [withInnermost, innermost, find?, hfind]

/-- Other names mean what they meant before a declaration. -/
theorem find?_declare_of_ne (h : name ≠ v.name) :
    (env.withInnermost (env.innermost.add v)).find? name = env.find? name := by
  cases env with
  | root scope => exact Scope.find?_add_of_ne h
  | child scope parent =>
    simp only [withInnermost, innermost, find?, Scope.find?_add_of_ne h]

/-- After a declaration the innermost scope has the new name, and the names that
it had before. -/
theorem binds_innermost_declare (env : Environment) (v : Variable) (name : String) :
    (env.withInnermost (env.innermost.add v)).innermost.binds name =
      (env.innermost.binds name || name == v.name) := by
  rw [innermost_withInnermost, Bool.eq_iff_iff, Scope.binds_iff, Bool.or_eq_true, beq_iff_eq,
    Scope.binds_iff]
  simp [Scope.add, Scope.names]

end Environment

end Scriptlet
