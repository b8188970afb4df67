import Scriptlet.Evaluation
import Scriptlet.Proofs.Environment.Change
import Scriptlet.Proofs.Node.Occurrence

/-!
# What an evaluation writes

Evaluating a node is a sequence of steps. Most of them leave the environment as
it is; an assignment inside the node writes to the variable that its name means,
and a declaration inside it adds a variable to the innermost scope. Whatever
these steps do, and sequences of steps keep, the evaluation of every node does,
whether it succeeds or fails.
-/

namespace Scriptlet

namespace Eval

variable {α β : Type}

/-- Whether the steps of an evaluation have a property, and sequences of steps keep
it. Of the steps that write, only those of allowed nodes need to have it. -/
structure WriteClosed (allowed : Node → Prop) (C : ∀ ⦃α : Type⦄, Eval α → Prop) : Prop where
  /-- A result has it. -/
  pure : ∀ {α : Type} (a : α), C (pure a)
  /-- A failure has it. -/
  throw : ∀ {α : Type} (e : EvalError), C (throw e : Eval α)
  /-- A sequence has it if both its parts have. -/
  bind : ∀ {α β : Type} {x : Eval α} {f : α → Eval β}, C x → (∀ a, C (f a)) → C (x >>= f)
  /-- Looking up a name has it. -/
  lookup : ∀ name, C (lookup name)
  /-- The assignment of an allowed node has it. -/
  assign : ∀ name node value, allowed (.assignment (.identifier name) node) →
    C (assign name value)
  /-- The declaration of an allowed node has it. -/
  declare : ∀ name constant node value, allowed (.declaration name constant node) →
    C (declare name value constant)

variable {allowed : Node → Prop} {C : ∀ ⦃α : Type⦄, Eval α → Prop}

/-- An operator gives a value or fails. -/
theorem WriteClosed.operate (hC : WriteClosed allowed C) (symbol : String) (a b : Value) :
    C (operate symbol a b) := by
  unfold Eval.operate
  split
  · split
    · exact hC.pure _
    · exact hC.throw _
  · exact hC.pure _

end Eval

open Eval

mutual

/-- The evaluation of a node does what its steps do. -/
theorem Node.eval_writeClosed {allowed : Node → Prop} {C : ∀ ⦃α : Type⦄, Eval α → Prop}
    (hC : WriteClosed allowed C) (n : Node) (hn : ∀ m ∈ n.subnodes, allowed m) : C n.eval := by
  have hself := hn n n.mem_subnodes_self
  match n with
  | .number value => exact hC.pure _
  | .identifier name => exact hC.lookup name
  | .object properties =>
    have hproperties := evalProperties_writeClosed hC [] properties fun m hm =>
      hn m (by simp [Node.subnodes, hm])
    exact hC.bind hproperties fun entries => hC.pure _
  | .assignment target value =>
    cases target with
    | identifier name =>
      have hvalue := Node.eval_writeClosed hC value fun m hm => hn m (by simp [Node.subnodes, hm])
      exact hC.bind hvalue fun result => hC.assign name value result hself
    | _ => exact hC.throw _
  | .binary left right operator =>
    have hleft := Node.eval_writeClosed hC left fun m hm => hn m (by simp [Node.subnodes, hm])
    have hright := Node.eval_writeClosed hC right fun m hm => hn m (by simp [Node.subnodes, hm])
    exact hC.bind hleft fun a => hC.bind hright fun b => hC.operate operator a b
  | .declaration name constant (some value) =>
    have hvalue := Node.eval_writeClosed hC value fun m hm => hn m (by simp [Node.subnodes, hm])
    exact hC.bind hvalue fun result => hC.declare name constant (some value) result hself
  | .declaration name constant none => exact hC.declare name constant none .null hself
  | .program body =>
    exact evalBody_writeClosed hC .null body fun m hm => hn m (by simp [Node.subnodes, hm])
  | .foreign datum => exact hC.throw _
  | .function name parameters body => exact hC.throw _
  | .call callee arguments => exact hC.throw _
  | .member object property computed => exact hC.throw _
  | .property content => exact hC.throw _

/-- The evaluation of statements does what their steps do. -/
theorem evalBody_writeClosed {allowed : Node → Prop} {C : ∀ ⦃α : Type⦄, Eval α → Prop}
    (hC : WriteClosed allowed C) (last : Value) (body : List Node)
    (hbody : ∀ m ∈ subnodesOf body, allowed m) : C (evalBody last body) := by
  match body with
  | [] => exact hC.pure _
  | node :: rest =>
    have hnode := Node.eval_writeClosed hC node fun m hm => hbody m (by simp [subnodesOf, hm])
    exact hC.bind hnode fun value =>
      evalBody_writeClosed hC value rest fun m hm => hbody m (by simp [subnodesOf, hm])

/-- The evaluation of properties does what their steps do. -/
theorem evalProperties_writeClosed {allowed : Node → Prop} {C : ∀ ⦃α : Type⦄, Eval α → Prop}
    (hC : WriteClosed allowed C) (entries : List (String × Value)) (properties : List Property)
    (hnodes : ∀ m ∈ subnodesOfProperties properties, allowed m) :
    C (evalProperties entries properties) := by
  match properties with
  | [] => exact hC.pure _
  | .shorthand key :: rest =>
    exact hC.bind (hC.lookup key) fun value =>
      evalProperties_writeClosed hC _ rest fun m hm => hnodes m (by simp [subnodesOfProperties, hm])
  | .pair key node :: rest =>
    have hnode := Node.eval_writeClosed hC node fun m hm =>
      hnodes m (by simp [subnodesOfProperties, Property.subnodes, hm])
    exact hC.bind hnode fun value =>
      evalProperties_writeClosed hC _ rest fun m hm => hnodes m (by simp [subnodesOfProperties, hm])

end

namespace Eval

variable {ε α β : Type}

/-- A property of the environments before and after that holds for each of two
computations one after the other holds for both together. -/
theorem after_bind {R : Environment → Environment → Prop}
    (htrans : ∀ {a b c}, R a b → R b c → R a c) {x : EStateM ε Environment α}
    {f : α → EStateM ε Environment β} (hx : ∀ env, R env (after x env))
    (hf : ∀ a env, R env (after (f a) env)) (env : Environment) :
    R env (after (x >>= f) env) := by
  have hfirst := hx env
  cases hresult : x env with
  | error e env' =>
    rw [after, hresult] at hfirst
    rwa [after, bind_of_error hresult]
  | ok a env' =>
    rw [after, hresult] at hfirst
    have hboth : after (x >>= f) env = after (f a) env' := by
      rw [after, after, bind_of_ok hresult]
    rw [hboth]
    exact htrans hfirst (hf a env')

/-- Looking up a name leaves the environment as it is. -/
theorem after_lookup (name : String) (env : Environment) : after (lookup name) env = env := by
  rw [after, lookup_apply]
  cases env.find? name <;> rfl

/-- Whether an environment changes only where the given names are assigned to. -/
def Changes (assignable : String → Prop) ⦃α : Type⦄ (x : Eval α) : Prop :=
  ∀ env : Environment, env.ChangesTo assignable (after x env)

/-- Assigning to a name changes the variable that it means. -/
theorem changes_assign {assignable : String → Prop} {name : String} (hname : assignable name)
    (value : Value) : Changes assignable (assign name value) := by
  intro env
  rw [after, assign_apply]
  cases hfind : env.find? name with
  | none => exact .refl _ env
  | some v =>
    cases hconstant : v.constant with
    | true => simpa [hconstant] using .refl _ env
    | false =>
      have hset := Environment.changesTo_set hname hfind hconstant value
      simpa [hconstant] using hset

/-- Declaring a name changes no variable that is there. -/
theorem changes_declare (assignable : String → Prop) (name : String) (value : Value)
    (constant : Bool) : Changes assignable (declare name value constant) := by
  intro env
  rw [after, declare_apply]
  cases hnew : env.innermost.binds name with
  | true => exact .refl _ env
  | false =>
    have hdeclare : env.ChangesTo assignable
        (env.withInnermost (env.innermost.add ⟨name, value, constant⟩)) :=
      Environment.changesTo_declare hnew
    exact hdeclare

/-- The steps of an evaluation change only variables with names that are assigned
to. -/
theorem writeClosed_changes (assignable : String → Prop) :
    WriteClosed (fun m => ∀ name ∈ m.assignedName?, assignable name) (Changes assignable) where
  pure _ env := .refl _ env
  throw _ env := .refl _ env
  bind hx hf := after_bind .trans hx hf
  lookup name env := (after_lookup name env).symm ▸ .refl _ env
  assign name _ value hname := changes_assign (hname name rfl) value
  declare name constant _ value _ := changes_declare assignable name value constant

/-- Whether a computation leaves every environment as it is. -/
def Idle ⦃α : Type⦄ (x : Eval α) : Prop :=
  ∀ env : Environment, after x env = env

/-- Steps that do not write leave the environment as it is. -/
theorem writeClosed_idle : WriteClosed (fun m => m.isWriting = false) Idle where
  pure _ _ := rfl
  throw _ _ := rfl
  bind hx hf env :=
    (after_bind (R := Eq) Eq.trans (fun env => (hx env).symm) (fun a env => (hf a env).symm)
      env).symm
  lookup name env := after_lookup name env
  assign _ _ _ hallowed := nomatch hallowed
  declare _ _ _ _ hallowed := nomatch hallowed

end Eval

/-- Evaluating a node changes only variables that an assignment inside it names. -/
theorem Node.eval_changes (n : Node) : Changes (· ∈ n.assignedNames) n.eval := by
  refine n.eval_writeClosed (writeClosed_changes _) fun m hm name hname => ?_
  exact List.mem_filterMap.2 ⟨m, hm, hname⟩

/-- Evaluating a node without assignments and declarations inside leaves the
environment as it is. -/
theorem Node.eval_idle {n : Node} (hn : ∀ m ∈ n.subnodes, m.isWriting = false) : Idle n.eval :=
  n.eval_writeClosed writeClosed_idle hn

end Scriptlet
