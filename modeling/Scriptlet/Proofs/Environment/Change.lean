import Scriptlet.Proofs.Environment.Access

/-!
# Environments that change

Assignments and declarations change an environment. The variables that it has
stay where they are, and only those get another value that are not constant,
whose name may be assigned to, and that no scope further inside hides. Changes
one after the other are such a change again, so what holds for one step holds
for any number of them.
-/

namespace Scriptlet

/-- Whether a variable is the same, or has another value that it may be given. -/
def Variable.ChangesTo (assignable : Prop) (v w : Variable) : Prop :=
  w = v ∨ assignable ∧ v.constant = false ∧ ∃ value, w = { v with value := value }

/-- Values that are given one after the other. -/
theorem Variable.ChangesTo.trans {assignable : Prop} {u v w : Variable}
    (h : u.ChangesTo assignable v) (h' : v.ChangesTo assignable w) :
    u.ChangesTo assignable w := by
  rcases h with rfl | ⟨ha, hconstant, value, rfl⟩
  · exact h'
  · rcases h' with rfl | ⟨-, -, value', rfl⟩
    · exact .inr ⟨ha, hconstant, value, rfl⟩
    · exact .inr ⟨ha, hconstant, value', rfl⟩

namespace Scope

/-- Whether a scope has all variables of another one, and at most those with a
name that may be assigned to have another value. -/
def ChangesTo (assignable : String → Prop) (s t : Scope) : Prop :=
  ∀ name v, s.find? name = some v →
    ∃ w, t.find? name = some w ∧ v.ChangesTo (assignable name) w

variable {assignable : String → Prop} {s t u : Scope}

/-- A scope has its own variables. -/
theorem ChangesTo.refl (assignable : String → Prop) (s : Scope) : s.ChangesTo assignable s :=
  fun _ v hv => ⟨v, hv, .inl rfl⟩

/-- A scope changes more than once. -/
theorem ChangesTo.trans (h : s.ChangesTo assignable t) (h' : t.ChangesTo assignable u) :
    s.ChangesTo assignable u := by
  intro name v hv
  obtain ⟨w, hw, hvw⟩ := h name v hv
  obtain ⟨x, hx, hwx⟩ := h' name w hw
  exact ⟨x, hx, hvw.trans hwx⟩

/-- More names may be assigned to. -/
theorem ChangesTo.mono {assignable' : String → Prop} (h : s.ChangesTo assignable t)
    (hmono : ∀ name, assignable name → assignable' name) : s.ChangesTo assignable' t := by
  intro name v hv
  obtain ⟨w, hw, hvw⟩ := h name v hv
  exact ⟨w, hw, hvw.imp_right fun hchange => ⟨hmono name hchange.1, hchange.2⟩⟩

/-- A scope that changes has the names that it had. -/
theorem ChangesTo.binds (h : s.ChangesTo assignable t) {name : String}
    (hname : s.binds name = true) : t.binds name = true := by
  obtain ⟨v, hv⟩ := Option.isSome_iff_exists.1 hname
  obtain ⟨w, hw, -⟩ := h name v hv
  exact Option.isSome_iff_exists.2 ⟨w, hw⟩

/-- A name that is still new was new before. -/
theorem ChangesTo.binds_eq_false (h : s.ChangesTo assignable t) {name : String}
    (hname : t.binds name = false) : s.binds name = false := by
  rw [Bool.eq_false_iff] at hname ⊢
  exact fun hs => hname (h.binds hs)

/-- A variable that may be assigned to is given a value. -/
theorem changesTo_set {name : String} {v : Variable} (hname : assignable name)
    (hfind : s.find? name = some v) (hconstant : v.constant = false) (value : Value) :
    s.ChangesTo assignable (s.set name value) := by
  intro other w hw
  by_cases hother : other = name
  · subst hother
    obtain rfl := Option.some.inj (hfind.symm.trans hw)
    exact ⟨_, find?_set_self hfind value, .inr ⟨hname, hconstant, value, rfl⟩⟩
  · exact ⟨w, (find?_set_of_ne hother value).trans hw, .inl rfl⟩

/-- A variable with a new name is added. -/
theorem changesTo_add {v : Variable} (hnew : s.binds v.name = false) :
    s.ChangesTo assignable (s.add v) := by
  intro name w hw
  have hne : name ≠ v.name := by
    rintro rfl
    rw [binds, hw] at hnew
    cases hnew
  exact ⟨w, (find?_add_of_ne hne).trans hw, .inl rfl⟩

end Scope

namespace Environment

/-- Whether an environment changes scope by scope. A name that a scope has is hidden
in the scopes around it. -/
inductive ChangesTo : (String → Prop) → Environment → Environment → Prop
  | root {assignable : String → Prop} {s t : Scope} :
      s.ChangesTo assignable t → ChangesTo assignable (.root s) (.root t)
  | child {assignable : String → Prop} {s t : Scope} {parent parent' : Environment} :
      s.ChangesTo assignable t →
        ChangesTo (fun name => assignable name ∧ s.binds name = false) parent parent' →
          ChangesTo assignable (.child s parent) (.child t parent')

variable {assignable : String → Prop} {env env' : Environment}

/-- An environment has its own variables. -/
theorem ChangesTo.refl (assignable : String → Prop) (env : Environment) :
    env.ChangesTo assignable env := by
  induction env generalizing assignable with
  | root s => exact .root (.refl assignable s)
  | child s parent ih => exact .child (.refl assignable s) (ih _)

/-- More names may be assigned to. -/
theorem ChangesTo.mono {assignable' : String → Prop} (h : env.ChangesTo assignable env')
    (hmono : ∀ name, assignable name → assignable' name) : env.ChangesTo assignable' env' := by
  induction h generalizing assignable' with
  | root hs => exact .root (hs.mono hmono)
  | child hs _ ih => exact .child (hs.mono hmono) (ih fun name h => ⟨hmono name h.1, h.2⟩)

/-- An environment changes more than once. What hides a name after the first step may be
new, but what hid it before is still there. -/
theorem ChangesTo.trans {env'' : Environment} (h : env.ChangesTo assignable env')
    (h' : env'.ChangesTo assignable env'') : env.ChangesTo assignable env'' := by
  induction h generalizing env'' with
  | root hs =>
    cases h' with
    | root ht => exact .root (hs.trans ht)
  | child hs _ ih =>
    cases h' with
    | child ht hparent =>
      refine .child (hs.trans ht) (ih (hparent.mono fun name h => ⟨h.1, ?_⟩))
      exact hs.binds_eq_false h.2

/-- The variable that a name means is given a value. -/
theorem changesTo_set {name : String} {v : Variable} (hname : assignable name)
    (hfind : env.find? name = some v) (hconstant : v.constant = false) (value : Value) :
    env.ChangesTo assignable (env.set name value) := by
  induction env generalizing assignable with
  | root s => exact .root (Scope.changesTo_set hname hfind hconstant value)
  | child s parent ih =>
    cases hs : s.find? name with
    | some w =>
      obtain rfl : w = v := by simpa [find?, hs] using hfind
      rw [set, if_pos (by simp [Scope.binds, hs])]
      exact .child (Scope.changesTo_set hname hs hconstant value) (.refl _ parent)
    | none =>
      have hparent : parent.find? name = some v := by simpa [find?, hs] using hfind
      have hhidden : s.binds name = false := by simp [Scope.binds, hs]
      rw [set, if_neg (by simp [hhidden])]
      exact .child (.refl assignable s) (ih ⟨hname, hhidden⟩ hparent)

/-- A variable with a new name is declared in the innermost scope. -/
theorem changesTo_declare {v : Variable} (hnew : env.innermost.binds v.name = false) :
    env.ChangesTo assignable (env.withInnermost (env.innermost.add v)) := by
  cases env with
  | root s => exact .root (Scope.changesTo_add hnew)
  | child s parent => exact .child (Scope.changesTo_add hnew) (.refl _ parent)

/-- An environment that changes has as many scopes. -/
theorem ChangesTo.length_scopes (h : env.ChangesTo assignable env') :
    env'.scopes.length = env.scopes.length := by
  induction h with
  | root _ => rfl
  | child _ _ ih => simp [scopes, ih]

/-- Each scope changes, and only variables with names that no scope further inside
has get another value. -/
theorem ChangesTo.scope (h : env.ChangesTo assignable env') {inner outer : List Scope}
    {s : Scope} (hscopes : env.scopes = inner ++ s :: outer) :
    ∃ t, env'.scopes[inner.length]? = some t ∧
      s.ChangesTo (fun name => assignable name ∧ ∀ r ∈ inner, r.binds name = false) t := by
  induction h generalizing inner with
  | @root _ s' t hs =>
    obtain ⟨rfl, hs', -⟩ : inner = [] ∧ s' = s ∧ outer = [] := by
      cases inner with
      | nil => simpa [scopes, eq_comm] using hscopes
      | cons r inner => simp [scopes] at hscopes
    subst hs'
    exact ⟨t, rfl, hs.mono fun name hname => ⟨hname, by simp⟩⟩
  | @child _ s' t parent parent' hs _ ih =>
    cases inner with
    | nil =>
      obtain ⟨rfl, -⟩ := List.cons.inj hscopes
      exact ⟨t, rfl, hs.mono fun name hname => ⟨hname, by simp⟩⟩
    | cons r inner =>
      obtain ⟨rfl, hparent⟩ := List.cons.inj hscopes
      obtain ⟨u, hu, hover⟩ := ih hparent
      refine ⟨u, hu, hover.mono fun name hname => ⟨hname.1.1, ?_⟩⟩
      exact List.forall_mem_cons.2 ⟨hname.1.2, hname.2⟩

end Environment

end Scriptlet
