import Scriptlet.Evaluation
import Scriptlet.Proofs.Grammar
import Scriptlet.Proofs.Token.Written

/-!
# The trees of expressions and statements

What the grammar derives as an expression holds no declaration, no program, no
datum that is no node and no operator that does not exist. A declaration stands
only where a statement does: in the body of a program or of a function. The
evaluation of an expression is thus made of a few steps: looking up, assigning
to a name, and failing with a target or a node that has no meaning yet. What all
of these steps do, and what sequences of steps keep, every expression does.
-/

namespace Scriptlet

/-- The operators that exist. -/
def knownOperators : List String :=
  sumOperators ++ productOperators

/-- The nodes that are expressions. -/
inductive IsExpression : Node → Prop
  | number (value : Float) : IsExpression (.number value)
  | identifier (name : String) : IsExpression (.identifier name)
  | member {object property : Node} {computed : Bool} :
      IsExpression object → IsExpression property →
        IsExpression (.member object property computed)
  | call {callee : Node} {arguments : List Node} :
      IsExpression callee → (∀ n ∈ arguments, IsExpression n) →
        IsExpression (.call callee arguments)
  | binary {left right : Node} {operator : String} :
      IsExpression left → IsExpression right → operator ∈ knownOperators →
        IsExpression (.binary left right operator)
  | object {properties : List Property} :
      (∀ key value, .pair key value ∈ properties → IsExpression value) →
        IsExpression (.object properties)
  | assignment {target value : Node} :
      IsExpression target → IsExpression value → IsExpression (.assignment target value)

/-- The nodes that are statements. -/
inductive IsStatement : Node → Prop
  | declaration {name : String} {constant : Bool} {value : Option Node} :
      (∀ n ∈ value, IsExpression n) → IsStatement (.declaration name constant value)
  | function {name : String} {parameters : List String} {body : List Node} :
      (∀ n ∈ body, IsStatement n) → IsStatement (.function name parameters body)
  | expression {n : Node} : IsExpression n → IsStatement n

namespace Grammar

/-- The operators of sums exist. -/
theorem operator_of_isAdditive {o : Symbol} (h : o.IsAdditive) :
    o.text ∈ knownOperators := by
  rcases h.2 with h | h <;> simp [knownOperators, sumOperators, productOperators, h]

/-- The operators of products exist. -/
theorem operator_of_isMultiplicative {o : Symbol} (h : o.IsMultiplicative) :
    o.text ∈ knownOperators := by
  rcases h.2 with h | h | h <;> simp [knownOperators, sumOperators, productOperators, h]

mutual

theorem Primary.isExpression {w : List Symbol} {n : Node} (h : Primary w n) :
    IsExpression n := by
  match h with
  | .name _ => exact .identifier _
  | .number _ _ => exact .number _
  | .group _ hn _ => exact hn.isExpression

theorem Member.isExpression {w : List Symbol} {n : Node} (h : Member w n) :
    IsExpression n := by
  match h with
  | .primary hn => exact hn.isExpression
  | .field hobject _ hname => exact .member hobject.isExpression hname.isExpression
  | .index hobject _ hproperty _ => exact .member hobject.isExpression hproperty.isExpression

theorem Call.isExpression {w : List Symbol} {n : Node} (h : Call w n) : IsExpression n := by
  match h with
  | .member hn => exact hn.isExpression
  | .call hcallee harguments => exact .call hcallee.isExpression harguments.isExpression

theorem Product.isExpression {w : List Symbol} {n : Node} (h : Product w n) :
    IsExpression n := by
  match h with
  | .call hn => exact hn.isExpression
  | .operator hleft ho hright =>
    exact .binary hleft.isExpression hright.isExpression (operator_of_isMultiplicative ho)

theorem Sum.isExpression {w : List Symbol} {n : Node} (h : Sum w n) : IsExpression n := by
  match h with
  | .product hn => exact hn.isExpression
  | .operator hleft ho hright =>
    exact .binary hleft.isExpression hright.isExpression (operator_of_isAdditive ho)

theorem Arguments.isExpression {w : List Symbol} {arguments : List Node}
    (h : Arguments w arguments) : ∀ n ∈ arguments, IsExpression n := by
  match h with
  | .none _ _ => simp
  | .some _ harguments _ => exact harguments.isExpression

theorem ArgumentList.isExpression {w : List Symbol} {arguments : List Node}
    (h : ArgumentList w arguments) : ∀ n ∈ arguments, IsExpression n := by
  match h with
  | .last hn => simpa using hn.isExpression
  | .more hn _ harguments => simpa using ⟨hn.isExpression, harguments.isExpression⟩

theorem Entry.isExpression {w : List Symbol} {p : Property} (h : Entry w p) :
    ∀ key value, p = .pair key value → IsExpression value := by
  match h with
  | .shorthand _ => simp
  | .pair _ _ hvalue =>
    rintro key value ⟨⟩
    exact hvalue.isExpression

theorem EntryList.isExpression {w : List Symbol} {properties : List Property}
    (h : EntryList w properties) :
    ∀ key value, .pair key value ∈ properties → IsExpression value := by
  intro key value hmem
  match h with
  | .last hp => exact hp.isExpression key value (List.mem_singleton.1 hmem).symm
  | .lastComma hp _ => exact hp.isExpression key value (List.mem_singleton.1 hmem).symm
  | .more hp _ hrest =>
    rcases List.mem_cons.1 hmem with heq | hmem
    · exact hp.isExpression key value heq.symm
    · exact hrest.isExpression key value hmem

theorem ObjectOrSum.isExpression {w : List Symbol} {n : Node} (h : ObjectOrSum w n) :
    IsExpression n := by
  match h with
  | .empty _ _ => exact .object (by simp)
  | .object _ hlist _ => exact .object hlist.isExpression
  | .sum hn => exact hn.isExpression

theorem Expression.isExpression {w : List Symbol} {n : Node} (h : Expression w n) :
    IsExpression n := by
  match h with
  | .plain hn => exact hn.isExpression
  | .assignment htarget _ hvalue => exact .assignment htarget.isExpression hvalue.isExpression

end

mutual

theorem Statement.isStatement {w : List Symbol} {n : Node} (h : Statement w n) :
    IsStatement n := by
  match h with
  | .uninitialized _ _ _ => exact .declaration (by simp)
  | .initialized _ _ _ hvalue _ => exact .declaration (by simpa using hvalue.isExpression)
  | .constant _ _ _ hvalue _ => exact .declaration (by simpa using hvalue.isExpression)
  | .function _ _ _ _ hbody _ => exact .function hbody.isStatement
  | .closed hn _ => exact .expression hn.isExpression

theorem Statements.isStatement {w : List Symbol} {body : List Node} (h : Statements w body) :
    ∀ n ∈ body, IsStatement n := by
  match h with
  | .nil => simp
  | .cons hn hrest => simpa using ⟨hn.isStatement, hrest.isStatement⟩
  | .bare hn hrest _ => simpa using ⟨.expression hn.isExpression, hrest.isStatement⟩

end

/-- A program is made of statements. -/
theorem Program.exists_body {w : List Symbol} {n : Node} (h : Program w n) :
    ∃ body, n = .program body ∧ ∀ m ∈ body, IsStatement m := by
  cases h with
  | statements hbody => exact ⟨_, rfl, hbody.isStatement⟩

end Grammar

namespace Eval

/-- Whether the steps of an expression have a property, and sequences of steps keep
it. -/
structure StepClosed (C : ∀ ⦃α : Type⦄, Eval α → Prop) : Prop where
  /-- A result has it. -/
  pure : ∀ {α : Type} (a : α), C (pure a)
  /-- A sequence has it if both its parts have. -/
  bind : ∀ {α β : Type} {x : Eval α} {f : α → Eval β}, C x → (∀ a, C (f a)) → C (x >>= f)
  /-- Looking up a name has it. -/
  lookup : ∀ name, C (lookup name)
  /-- Assigning to a name has it. -/
  assign : ∀ name value, C (assign name value)
  /-- Failing with a target that is no name has it. -/
  target : ∀ node, C (throw (.target node) : Eval Value)
  /-- Failing with a node that has no meaning yet has it. -/
  unsupported : ∀ node, C (throw (.unsupported node) : Eval Value)

/-- An operator that exists gives a value for any operands. -/
theorem exists_operate {symbol : String} (hsymbol : symbol ∈ knownOperators) (a b : Value) :
    ∃ value, operate symbol a b = pure value := by
  unfold operate
  split
  · rename_i x y
    simp only [knownOperators, sumOperators, productOperators, List.cons_append, List.nil_append,
      List.mem_cons, List.not_mem_nil, or_false] at hsymbol
    rcases hsymbol with rfl | rfl | rfl | rfl | rfl <;> exact ⟨_, rfl⟩
  · exact ⟨_, rfl⟩

end Eval

variable {C : ∀ ⦃α : Type⦄, Eval α → Prop}

/-- Properties do what their values do. -/
theorem evalProperties_closed (hC : Eval.StepClosed C) {properties : List Property}
    (h : ∀ key value, .pair key value ∈ properties → C value.eval)
    (entries : List (String × Value)) : C (evalProperties entries properties) := by
  induction properties generalizing entries with
  | nil => exact hC.pure entries
  | cons p rest ih =>
    have hrest := ih fun key value hmem => h key value (List.mem_cons_of_mem p hmem)
    cases p with
    | shorthand key => exact hC.bind (hC.lookup key) fun value => hrest _
    | pair key value => exact hC.bind (h key value List.mem_cons_self) fun value => hrest _

/-- Expressions do what their steps do. -/
theorem IsExpression.eval_closed (hC : Eval.StepClosed C) {n : Node} (h : IsExpression n) :
    C n.eval := by
  induction h with
  | number value => exact hC.pure _
  | identifier name => exact hC.lookup name
  | member _ _ _ _ => exact hC.unsupported _
  | call _ _ _ _ => exact hC.unsupported _
  | binary _ _ ho hleft hright =>
    refine hC.bind hleft fun a => hC.bind hright fun b => ?_
    obtain ⟨value, hvalue⟩ := Eval.exists_operate ho a b
    exact hvalue ▸ hC.pure value
  | object _ hvalues =>
    exact hC.bind (evalProperties_closed hC hvalues []) fun entries => hC.pure _
  | @assignment target _ _ _ _ hvalue =>
    cases target with
    | identifier name => exact hC.bind hvalue fun result => hC.assign name result
    | _ => exact hC.target _

end Scriptlet
