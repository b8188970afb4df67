import Mathlib.Data.List.Forall2
import Mathlib.Data.Set.Basic
import Scriptlet.Proofs.Environment.Lasting
import Scriptlet.Proofs.Node.Occurrence
import Scriptlet.Script

/-!
# Two runs side by side

The same tree is evaluated in two environments that correspond in some way.
The two runs stay side by side if each of their steps does: looking up,
assigning to and declaring the names of the tree, and applying its operators.
Then both give values that correspond, or both fail with the same error, and
the environments that they leave correspond again.
-/

namespace Scriptlet

namespace Eval

variable {ε α β γ δ : Type} {R : Environment → Environment → Prop}

/-- How two outcomes correspond: both are values that do, or both are the same
error, and so do the environments that are left. -/
inductive Outcomes (R : Environment → Environment → Prop) (Q : α → β → Prop) :
    EStateM.Result ε Environment α → EStateM.Result ε Environment β → Prop
  | ok {a : α} {b : β} {env env' : Environment} :
      Q a b → R env env' → Outcomes R Q (.ok a env) (.ok b env')
  | error {e : ε} {env env' : Environment} :
      R env env' → Outcomes R Q (.error e env) (.error e env')

/-- Whether two computations stay side by side in environments that
correspond. -/
def Related (R : Environment → Environment → Prop) (Q : α → β → Prop)
    (x : EStateM ε Environment α) (y : EStateM ε Environment β) : Prop :=
  ∀ ⦃env env' : Environment⦄, R env env' → Outcomes R Q (x env) (y env')

/-- Results that correspond stay side by side. -/
theorem related_pure {Q : α → β → Prop} {a : α} {b : β} (h : Q a b) :
    Related R Q (pure a : EStateM ε Environment α) (pure b) :=
  fun _ _ henv => .ok h henv

/-- The same error stays side by side with itself. -/
theorem related_throw {Q : α → β → Prop} (e : ε) :
    Related R Q (throw e : EStateM ε Environment α) (throw e) :=
  fun _ _ henv => .error henv

/-- Computations one after the other stay side by side if each of them does. -/
theorem Related.bind {Q : α → β → Prop} {P : γ → δ → Prop} {x : EStateM ε Environment α}
    {y : EStateM ε Environment β} {f : α → EStateM ε Environment γ}
    {g : β → EStateM ε Environment δ} (hx : Related R Q x y)
    (hf : ∀ a b, Q a b → Related R P (f a) (g b)) : Related R P (x >>= f) (y >>= g) := by
  intro env env' henv
  have hfirst := hx henv
  cases hresult : x env with
  | ok a left =>
    cases hresult' : y env' with
    | ok b right =>
      rw [hresult, hresult'] at hfirst
      cases hfirst with
      | ok hab hleft =>
        rw [bind_of_ok hresult, bind_of_ok hresult']
        exact hf a b hab hleft
    | error e right =>
      rw [hresult, hresult'] at hfirst
      cases hfirst
  | error e left =>
    cases hresult' : y env' with
    | ok b right =>
      rw [hresult, hresult'] at hfirst
      cases hfirst
    | error e' right =>
      rw [hresult, hresult'] at hfirst
      cases hfirst with
      | error hleft =>
        rw [bind_of_error hresult, bind_of_error hresult']
        exact .error hleft

/-- Whether two properties have the same key and values that correspond. -/
def SameEntry (Q : Value → Value → Prop) (p q : String × Value) : Prop :=
  p.1 = q.1 ∧ Q p.2 q.2

/-- Whether the steps of an evaluation keep two runs side by side, as long as
they use only the given names and operators. -/
structure Kept (R : Environment → Environment → Prop) (Q : Value → Value → Prop)
    (names symbols : Set String) : Prop where
  /-- Numbers correspond to themselves. -/
  number (x : Float) : Q (.number x) (.number x)
  /-- Null corresponds to itself. -/
  null : Q .null .null
  /-- Objects correspond if they have the same keys with values that do. -/
  object {entries entries' : List (String × Value)} :
    List.Forall₂ (SameEntry Q) entries entries' → Q (.object entries) (.object entries')
  /-- Looking up a name. -/
  lookup {name : String} : name ∈ names → Related R Q (lookup name) (lookup name)
  /-- Assigning to a name. -/
  assign {name : String} {value value' : Value} :
    name ∈ names → Q value value' → Related R Q (assign name value) (assign name value')
  /-- Declaring a name. -/
  declare {name : String} {value value' : Value} {constant : Bool} :
    name ∈ names → Q value value' →
      Related R Q (declare name value constant) (declare name value' constant)
  /-- Applying an operator. -/
  operate {symbol : String} {a a' b b' : Value} :
    symbol ∈ symbols → Q a a' → Q b b' →
      Related R Q (operate symbol a b) (operate symbol a' b')

/-- Setting a key to values that correspond keeps the entries side by side. -/
theorem forall₂_setKey {Q : Value → Value → Prop} {entries entries' : List (String × Value)}
    (h : List.Forall₂ (SameEntry Q) entries entries') (key : String) {value value' : Value}
    (hvalue : Q value value') :
    List.Forall₂ (SameEntry Q) (setKey key value entries) (setKey key value' entries') := by
  induction h with
  | nil => exact .cons ⟨rfl, hvalue⟩ .nil
  | @cons p q entries entries' hpq hrest ih =>
    by_cases hkey : p.1 = key
    · have hkey' : q.1 = key := hpq.1 ▸ hkey
      rw [setKey, if_pos hkey, setKey, if_pos hkey']
      exact .cons ⟨rfl, hvalue⟩ hrest
    · have hkey' : q.1 ≠ key := hpq.1 ▸ hkey
      rw [setKey, if_neg hkey, setKey, if_neg hkey']
      exact .cons hpq ih

end Eval

/-- Whether a node itself uses only the given names and operators. -/
def Node.Admitted (names symbols : Set String) (n : Node) : Prop :=
  (∀ name ∈ n.ownNames, name ∈ names) ∧ ∀ symbol ∈ n.operator?, symbol ∈ symbols

open Eval

mutual

/-- Two runs of a tree stay side by side if its steps do. -/
theorem Node.eval_related {R : Environment → Environment → Prop} {Q : Value → Value → Prop}
    {names symbols : Set String} (hkept : Kept R Q names symbols) (n : Node)
    (hn : ∀ m ∈ n.subnodes, m.Admitted names symbols) : Related R Q n.eval n.eval := by
  have hself := hn n n.mem_subnodes_self
  match n with
  | .number value => exact related_pure (hkept.number value)
  | .identifier name => exact hkept.lookup (hself.1 name (by simp [Node.ownNames]))
  | .object properties =>
    refine (evalProperties_related hkept .nil properties ?_ ?_).bind fun _ _ hentries =>
      related_pure (hkept.object hentries)
    · exact fun m hm => hn m (by simp [Node.subnodes, hm])
    · exact fun key hkey => hself.1 key hkey
  | .assignment target value =>
    cases target with
    | identifier name =>
      have hname := hn (.identifier name) (by simp [Node.subnodes])
      refine (Node.eval_related hkept value fun m hm => hn m (by simp [Node.subnodes, hm])).bind
        fun a b hab => hkept.assign (hname.1 name (by simp [Node.ownNames])) hab
    | _ => exact related_throw _
  | .binary left right operator =>
    have hleft := Node.eval_related hkept left fun m hm => hn m (by simp [Node.subnodes, hm])
    have hright := Node.eval_related hkept right fun m hm => hn m (by simp [Node.subnodes, hm])
    have hsymbol : operator ∈ symbols := hself.2 operator rfl
    exact hleft.bind fun a a' ha => hright.bind fun b b' hb => hkept.operate hsymbol ha hb
  | .declaration name constant (some value) =>
    have hname : name ∈ names := hself.1 name (by simp [Node.ownNames])
    exact (Node.eval_related hkept value fun m hm => hn m (by simp [Node.subnodes, hm])).bind
      fun a b hab => hkept.declare hname hab
  | .declaration name constant none =>
    exact hkept.declare (hself.1 name (by simp [Node.ownNames])) hkept.null
  | .program body =>
    exact evalBody_related hkept hkept.null body fun m hm => hn m (by simp [Node.subnodes, hm])
  | .foreign datum => exact related_throw _
  | .function name parameters body => exact related_throw _
  | .call callee arguments => exact related_throw _
  | .member object property computed => exact related_throw _
  | .property content => exact related_throw _

/-- Two runs of statements stay side by side if their steps do. -/
theorem evalBody_related {R : Environment → Environment → Prop} {Q : Value → Value → Prop}
    {names symbols : Set String} (hkept : Kept R Q names symbols) {last last' : Value}
    (hlast : Q last last') (body : List Node)
    (hbody : ∀ m ∈ subnodesOf body, m.Admitted names symbols) :
    Related R Q (evalBody last body) (evalBody last' body) := by
  match body with
  | [] => exact related_pure hlast
  | node :: rest =>
    have hnode := Node.eval_related hkept node fun m hm => hbody m (by simp [subnodesOf, hm])
    exact hnode.bind fun a b hab =>
      evalBody_related hkept hab rest fun m hm => hbody m (by simp [subnodesOf, hm])

/-- Two runs of properties stay side by side if their steps do. -/
theorem evalProperties_related {R : Environment → Environment → Prop}
    {Q : Value → Value → Prop} {names symbols : Set String} (hkept : Kept R Q names symbols)
    {entries entries' : List (String × Value)}
    (hentries : List.Forall₂ (SameEntry Q) entries entries') (properties : List Property)
    (hnodes : ∀ m ∈ subnodesOfProperties properties, m.Admitted names symbols)
    (hkeys : ∀ key ∈ properties.filterMap Property.shorthand?, key ∈ names) :
    Related R (List.Forall₂ (SameEntry Q)) (evalProperties entries properties)
      (evalProperties entries' properties) := by
  match properties with
  | [] => exact related_pure hentries
  | .shorthand key :: rest =>
    have hkey : key ∈ names := hkeys key (by simp [Property.shorthand?])
    refine (hkept.lookup hkey).bind fun a b hab =>
      evalProperties_related hkept (forall₂_setKey hentries key hab) rest ?_ ?_
    · exact fun m hm => hnodes m (by simp [subnodesOfProperties, hm])
    · exact fun other hother => hkeys other (List.mem_cons_of_mem key hother)
  | .pair key node :: rest =>
    have hnode := Node.eval_related hkept node fun m hm =>
      hnodes m (by simp [subnodesOfProperties, Property.subnodes, hm])
    refine hnode.bind fun a b hab =>
      evalProperties_related hkept (forall₂_setKey hentries key hab) rest ?_ ?_
    · exact fun m hm => hnodes m (by simp [subnodesOfProperties, hm])
    · exact hkeys

end

/-- What stays side by side as a computation does so as a step of a script. -/
theorem Eval.related_evaluate {R : Environment → Environment → Prop} {Q : Value → Value → Prop}
    {n : Node} (h : Related R Q n.eval n.eval) : Related R Q (evaluate n) (evaluate n) := by
  intro env env' henv
  have houtcomes := h henv
  unfold evaluate
  cases hresult : n.eval env <;> cases hresult' : n.eval env' <;>
    rw [hresult, hresult'] at houtcomes <;> cases houtcomes
  · exact .ok ‹_› ‹_›
  · exact .error ‹_›

end Scriptlet
