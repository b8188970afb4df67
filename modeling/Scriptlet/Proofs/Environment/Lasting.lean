import Mathlib.Data.List.Nodup
import Scriptlet.Environment

/-!
# What lasts in an environment

The name of a variable, whether it is constant, and the value of a constant
last for ever. Looking up and assigning change nothing that lasts, and
declaring adds one variable at the end of the innermost scope. A computation is
described by the variables that it declares; computations one after the other
declare what the first declares and then, if it succeeds, what the second does.
-/

namespace Scriptlet

/-- What lasts of a variable: its name and, if it is constant, its value. -/
def Variable.lasting (v : Variable) : String × Option Value :=
  (v.name, if v.constant then some v.value else none)

namespace Scope

/-- What lasts of a scope. -/
def lasting (s : Scope) : List (String × Option Value) :=
  s.bindings.map Variable.lasting

/-- Whether no two variables have the same name. -/
def Distinct (s : Scope) : Prop :=
  s.names.Nodup

/-- A scope without variables has no two of the same name. -/
theorem distinct_empty : Scope.empty.Distinct :=
  List.nodup_nil

variable {s : Scope} {name : String} {v : Variable}

/-- The names are part of what lasts. -/
theorem map_fst_lasting (s : Scope) : s.lasting.map (·.1) = s.names := by
  simp [lasting, names, Variable.lasting]

/-- Scopes of which the same lasts have the same names. -/
theorem names_eq_of_lasting {t : Scope} (h : s.lasting = t.lasting) : s.names = t.names := by
  rw [← map_fst_lasting, ← map_fst_lasting, h]

/-- A name is bound if a variable has it. -/
theorem binds_iff : s.binds name = true ↔ name ∈ s.names := by
  simp [binds, find?, names]

/-- A name is not bound if no variable has it. -/
theorem binds_eq_false_iff : s.binds name = false ↔ name ∉ s.names := by
  rw [← binds_iff, Bool.not_eq_true]

/-- Adding a variable adds what lasts of it. -/
theorem lasting_add (s : Scope) (v : Variable) : (s.add v).lasting = s.lasting ++ [v.lasting] := by
  simp [add, lasting]

/-- A variable with a new name may be added. -/
theorem Distinct.add (hs : s.Distinct) (hnew : v.name ∉ s.names) : (s.add v).Distinct := by
  have hnames : (s.add v).names = s.names ++ [v.name] := by simp [names, Scope.add]
  rw [Distinct, hnames]
  exact List.Nodup.append hs (List.nodup_singleton _) (by simpa using hnew)

/-- A name means the variable that has it. -/
theorem find?_eq_some_iff (hs : s.Distinct) :
    s.find? name = some v ↔ v ∈ s.bindings ∧ v.name = name := by
  constructor
  · intro h
    exact ⟨List.mem_of_find?_eq_some h, by simpa using List.find?_some h⟩
  · rintro ⟨hv, rfl⟩
    have hbinds : s.binds v.name = true := binds_iff.2 (List.mem_map_of_mem hv)
    obtain ⟨w, hw⟩ := Option.isSome_iff_exists.1 hbinds
    have hmem := List.mem_of_find?_eq_some hw
    have hname : w.name = v.name := by simpa using List.find?_some hw
    rw [hw, List.inj_on_of_nodup_map hs hmem hv hname]

/-- Giving a variable that is not constant another value changes nothing that
lasts. -/
theorem lasting_set (hs : s.Distinct) (hfind : s.find? name = some v) (hv : v.constant = false)
    (value : Value) : (s.set name value).lasting = s.lasting := by
  unfold set lasting
  rw [List.map_map]
  refine List.map_congr_left fun w hw => ?_
  by_cases hname : w.name = name
  · have hfind' : s.find? name = some w := (find?_eq_some_iff hs).2 ⟨hw, hname⟩
    obtain rfl := Option.some.inj (hfind.symm.trans hfind')
    simp [Variable.lasting, hname, hv]
  · simp [hname]

end Scope

namespace Environment

/-- What lasts of an environment, scope by scope. -/
def lasting (env : Environment) : List (List (String × Option Value)) :=
  env.scopes.map Scope.lasting

/-- Whether no scope has two variables of the same name. -/
def Distinct (env : Environment) : Prop :=
  ∀ s ∈ env.scopes, s.Distinct

/-- Giving a variable that is not constant another value changes nothing that
lasts. -/
theorem lasting_set {env : Environment} {name : String} {v : Variable} (henv : env.Distinct)
    (hfind : env.find? name = some v) (hv : v.constant = false) (value : Value) :
    (env.set name value).lasting = env.lasting := by
  induction env with
  | root scope =>
    have hs : scope.Distinct := henv scope (by simp [scopes])
    simp [lasting, set, scopes, Scope.lasting_set hs hfind hv]
  | child scope parent ih =>
    have hs : scope.Distinct := henv scope (by simp [scopes])
    have hparent : parent.Distinct := fun s h => henv s (by simp [scopes, h])
    cases hscope : scope.find? name with
    | some w =>
      obtain rfl : w = v := by simpa [find?, hscope] using hfind
      simp [lasting, set, scopes, Scope.binds, hscope, Scope.lasting_set hs hscope hv]
    | none =>
      have hrest : parent.find? name = some v := by simpa [find?, hscope] using hfind
      have h := ih hparent hrest
      simp only [lasting] at h
      simp [lasting, set, scopes, Scope.binds, hscope, h]

/-- An environment with other scopes of which the same lasts. -/
theorem Distinct.of_lasting {env env' : Environment} (henv : env.Distinct)
    (h : env'.lasting = env.lasting) : env'.Distinct := by
  intro s hs
  have hmem : s.lasting ∈ env.lasting := h ▸ List.mem_map_of_mem hs
  obtain ⟨t, ht, hlasting⟩ := List.mem_map.1 hmem
  rw [Scope.Distinct, Scope.names_eq_of_lasting hlasting.symm]
  exact henv t ht

/-- The innermost scope is the first one. -/
theorem scopes_eq_cons (env : Environment) :
    ∃ outer, env.scopes = env.innermost :: outer ∧
      ∀ scope, (env.withInnermost scope).scopes = scope :: outer := by
  cases env with
  | root scope => exact ⟨[], rfl, fun _ => rfl⟩
  | child scope parent => exact ⟨parent.scopes, rfl, fun _ => rfl⟩

end Environment

/-- Adds what lasts of new variables to what lasts of the innermost scope. -/
def extend (log : List Variable) :
    List (List (String × Option Value)) → List (List (String × Option Value))
  | [] => []
  | inner :: outer => (inner ++ log.map Variable.lasting) :: outer

/-- Without new variables nothing is added. -/
@[simp]
theorem extend_nil (all : List (List (String × Option Value))) : extend [] all = all := by
  cases all <;> simp [extend]

/-- New variables are added one after the other. -/
theorem extend_append (log more : List Variable) (all : List (List (String × Option Value))) :
    extend (log ++ more) all = extend more (extend log all) := by
  cases all <;> simp [extend]

/-- New variables make no new scopes. -/
theorem length_extend (log : List Variable) (all : List (List (String × Option Value))) :
    (extend log all).length = all.length := by
  cases all <;> rfl

/-- An environment of which more lasts in its innermost scope has no more
scopes. -/
theorem Environment.length_scopes_of_lasting {env env' : Environment} {log : List Variable}
    (h : env'.lasting = extend log env.lasting) : env'.scopes.length = env.scopes.length := by
  have hlength := congrArg List.length h
  rw [length_extend] at hlength
  simpa [lasting] using hlength

namespace Eval

variable {ε α β : Type}

/-- The environment that a computation leaves. -/
def after (x : EStateM ε Environment α) (env : Environment) : Environment :=
  match x env with
  | .ok _ env => env
  | .error _ env => env

/-- What is done with the result of a computation leaves the same environment. -/
theorem after_map (f : α → β) (x : EStateM ε Environment α) (env : Environment) :
    after (f <$> x) env = after x env := by
  have hmap : (f <$> x) env = EStateM.map f x env := rfl
  unfold after
  rw [hmap, EStateM.map]
  cases x env <;> rfl

/-- What is logged after a computation, if it succeeds. -/
def onSuccess (x : EStateM ε Environment α) (log : α → Environment → List Variable)
    (env : Environment) : List Variable :=
  match x env with
  | .ok result env => log result env
  | .error _ _ => []

/-- Whether a computation declares, in the innermost scope, the variables that
are logged, and changes nothing else that lasts. -/
def Declares (x : EStateM ε Environment α) (log : Environment → List Variable) : Prop :=
  ∀ env, env.Distinct → (after x env).Distinct ∧ (after x env).lasting = extend (log env) env.lasting

/-- A computation that leaves the environment as it is declares nothing. -/
theorem declares_of_after {x : EStateM ε Environment α} (h : ∀ env, after x env = env) :
    Declares x fun _ => [] := by
  intro env henv
  rw [h]
  exact ⟨henv, (extend_nil _).symm⟩

/-- A result declares nothing. -/
theorem declares_pure (a : α) : Declares (pure a : EStateM ε Environment α) fun _ => [] :=
  declares_of_after fun _ => rfl

/-- A failure declares nothing. -/
theorem declares_throw (e : ε) : Declares (throw e : EStateM ε Environment α) fun _ => [] :=
  declares_of_after fun _ => rfl

section Sequence

variable {x : EStateM ε Environment α} {f : α → EStateM ε Environment β}
  {env env' : Environment}

/-- After a success, the second of two computations goes on. -/
theorem bind_of_ok {a : α} (h : x env = .ok a env') : (x >>= f) env = f a env' := by
  have hbind : (x >>= f) env = EStateM.bind x f env := rfl
  rw [hbind, EStateM.bind, h]

/-- After a failure, nothing follows. -/
theorem bind_of_error {e : ε} (h : x env = .error e env') :
    (x >>= f) env = .error e env' := by
  have hbind : (x >>= f) env = EStateM.bind x f env := rfl
  rw [hbind, EStateM.bind, h]

/-- Computations one after the other declare what the first one declares and
then, if it succeeds, what the second one does. -/
theorem Declares.bind {log : Environment → List Variable}
    {more : α → Environment → List Variable} (hx : Declares x log)
    (hf : ∀ a, Declares (f a) (more a)) :
    Declares (x >>= f) fun env => log env ++ onSuccess x more env := by
  intro env henv
  dsimp only
  have hfirst := hx env henv
  cases hresult : x env with
  | error e env' =>
    have hafter : after x env = env' := by rw [after, hresult]
    have hboth : after (x >>= f) env = env' := by rw [after, bind_of_error hresult]
    have hmore : onSuccess x more env = [] := by rw [onSuccess, hresult]
    rw [hafter] at hfirst
    rw [hboth, hmore, List.append_nil]
    exact hfirst
  | ok a env' =>
    have hafter : after x env = env' := by rw [after, hresult]
    have hboth : after (x >>= f) env = after (f a) env' := by
      rw [after, after, bind_of_ok hresult]
    have hmore : onSuccess x more env = more a env' := by rw [onSuccess, hresult]
    rw [hafter] at hfirst
    obtain ⟨hdistinct, hlasting⟩ := hf a env' hfirst.1
    rw [hboth, hmore, extend_append, ← hfirst.2]
    exact ⟨hdistinct, hlasting⟩

/-- What declares nothing after a computation adds nothing to its log. -/
theorem Declares.bind_idle {log : Environment → List Variable} (hx : Declares x log)
    (hf : ∀ a, Declares (f a) fun _ => []) : Declares (x >>= f) log := by
  intro env henv
  have hidle : onSuccess x (fun _ _ => []) env = [] := by
    unfold onSuccess
    cases x env <;> rfl
  have h := hx.bind hf env henv
  dsimp only at h
  rw [hidle, List.append_nil] at h
  exact h

end Sequence

/-- A computation that takes the environment first is given it. -/
theorem get_bind (f : Environment → Eval β) (env : Environment) :
    ((get : Eval Environment) >>= f) env = f env env :=
  rfl

/-- A name is looked up in the environment. -/
theorem lookup_apply (name : String) (env : Environment) :
    lookup name env =
      match env.find? name with
      | some v => .ok v.value env
      | none => .error (.unresolved name) env := by
  rw [lookup, get_bind]
  cases env.find? name <;> rfl

/-- A variable that is not constant takes the value that is assigned. -/
theorem assign_apply (name : String) (value : Value) (env : Environment) :
    assign name value env =
      match env.find? name with
      | some v =>
        if v.constant then .error (.constant name) env else .ok value (env.set name value)
      | none => .error (.unresolved name) env := by
  rw [assign, get_bind]
  cases env.find? name with
  | none => rfl
  | some v =>
    dsimp only
    cases v.constant <;> rfl

/-- A name that is new in the innermost scope is declared there. -/
theorem declare_apply (name : String) (value : Value) (constant : Bool) (env : Environment) :
    declare name value constant env =
      if env.innermost.binds name then .error (.redeclared name) env
      else .ok value (env.withInnermost (env.innermost.add ⟨name, value, constant⟩)) := by
  rw [declare, get_bind, Scope.declare]
  cases env.innermost.binds name <;> rfl

/-- Looking up a name declares nothing. -/
theorem declares_lookup (name : String) : Declares (lookup name) fun _ => [] := by
  refine declares_of_after fun env => ?_
  rw [after, lookup_apply]
  cases env.find? name <;> rfl

/-- Assigning to a name declares nothing. -/
theorem declares_assign (name : String) (value : Value) :
    Declares (assign name value) fun _ => [] := by
  intro env henv
  have hlasting : (after (assign name value) env).lasting = env.lasting := by
    rw [after, assign_apply]
    cases hfind : env.find? name with
    | none => rfl
    | some v =>
      cases hv : v.constant with
      | true => simp [hv]
      | false => simpa [hv] using Environment.lasting_set henv hfind hv value
  rw [extend_nil]
  exact ⟨henv.of_lasting hlasting, hlasting⟩

/-- The variable that is declared, unless the innermost scope has its name. -/
def declared (v : Variable) (env : Environment) : List Variable :=
  if env.innermost.binds v.name then [] else [v]

/-- Declaring a name declares a variable. -/
theorem declares_declare (name : String) (value : Value) (constant : Bool) :
    Declares (declare name value constant) (declared ⟨name, value, constant⟩) := by
  intro env henv
  rw [after, declare_apply, declared]
  cases hbinds : env.innermost.binds name with
  | true => simpa using henv
  | false =>
    obtain ⟨outer, hscopes, hwith⟩ := env.scopes_eq_cons
    have hnew : name ∉ env.innermost.names := Scope.binds_eq_false_iff.1 hbinds
    have hinner : env.innermost.Distinct := henv _ (by simp [hscopes])
    simp only [Bool.false_eq_true, if_false]
    constructor
    · intro s hs
      rw [hwith, List.mem_cons] at hs
      rcases hs with rfl | hs
      · exact hinner.add hnew
      · exact henv s (by simp [hscopes, hs])
    · simp [Environment.lasting, hwith, hscopes, extend, Scope.lasting_add]

end Eval

end Scriptlet
