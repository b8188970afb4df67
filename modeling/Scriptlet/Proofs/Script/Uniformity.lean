import Scriptlet.Proofs.Environment.Form
import Scriptlet.Proofs.Evaluation.Proper
import Scriptlet.Proofs.Evaluation.Related
import Scriptlet.Proofs.Script.Parse

/-!
# Failures do not depend on values

Whether a program fails, and how, is decided by the form of the environment. No
step of an evaluation fails because of a value: operands that are not both
numbers give null, quotients and remainders are defined everywhere, and the
operators of a program that was parsed exist. So a program that is evaluated
in two environments of the same form succeeds in both or fails in both with
the same error, and leaves environments of the same form.
-/

namespace Scriptlet

/-- Whether two environments have the same form. -/
def Environment.SameForm (env env' : Environment) : Prop :=
  env.form = env'.form

namespace Eval

open Environment

/-- Whether any two values correspond. -/
def AnyTwo (_ _ : Value) : Prop :=
  True

/-- Whether a name can be looked up depends on the form only. -/
theorem uniform_lookup (name : String) :
    Related SameForm AnyTwo (lookup name) (lookup name) := by
  intro env env' henv
  have hconstant := constant_find?_eq_of_form henv name
  rw [lookup_apply, lookup_apply]
  cases hfind : env.find? name <;> cases hfind' : env'.find? name <;>
    simp only [hfind, hfind', Option.map_none, Option.map_some, reduceCtorEq] at hconstant
  · exact .error henv
  · exact .ok trivial henv

/-- Whether a name can be assigned to depends on the form only. -/
theorem uniform_assign (name : String) (value value' : Value) :
    Related SameForm AnyTwo (assign name value) (assign name value') := by
  intro env env' henv
  have hconstant := constant_find?_eq_of_form henv name
  have hset : (env.set name value).SameForm (env'.set name value') := by
    rw [SameForm, form_set, form_set]
    exact henv
  rw [assign_apply, assign_apply]
  cases hfind : env.find? name <;> cases hfind' : env'.find? name <;>
    simp only [hfind, hfind', Option.map_none, Option.map_some, reduceCtorEq] at hconstant
  · exact .error henv
  · rename_i v v'
    rw [Option.some.injEq] at hconstant
    dsimp only
    rw [← hconstant]
    cases v.constant with
    | true => exact .error henv
    | false => exact .ok trivial hset

/-- Whether a name can be declared depends on the form only. -/
theorem uniform_declare (name : String) (value value' : Value) (constant : Bool) :
    Related SameForm AnyTwo (declare name value constant) (declare name value' constant) := by
  intro env env' henv
  rw [declare_apply, declare_apply, ← binds_innermost_eq_of_form henv name]
  cases env.innermost.binds name with
  | true => exact .error henv
  | false =>
    have hdeclare := @form_declare_eq env env' henv ⟨name, value, constant⟩
      ⟨name, value', constant⟩ rfl rfl
    exact .ok trivial hdeclare

/-- The steps of an evaluation keep environments in the same form. -/
theorem kept_form : Kept SameForm AnyTwo Set.univ {symbol | symbol ∈ knownOperators} where
  number _ := trivial
  null := trivial
  object _ := trivial
  lookup _ := uniform_lookup _
  assign _ _ := uniform_assign _ _ _
  declare _ _ := uniform_declare _ _ _ _
  operate {symbol a a' b b'} hsymbol _ _ := by
    obtain ⟨value, hvalue⟩ := exists_operate hsymbol a b
    obtain ⟨value', hvalue'⟩ := exists_operate hsymbol a' b'
    rw [hvalue, hvalue']
    exact related_pure trivial

end Eval

/-- Whether all operators of the given nodes exist. -/
def KnownOnly (nodes : List Node) : Prop :=
  ∀ n ∈ nodes, ∀ symbol ∈ n.operator?, symbol ∈ knownOperators

section KnownOnly

variable {n : Node} {nodes more : List Node}

/-- No nodes have no operators. -/
@[simp]
theorem knownOnly_nil : KnownOnly [] := by
  simp [KnownOnly]

/-- The operators of nodes are those of the first one and of the others. -/
@[simp]
theorem knownOnly_cons :
    KnownOnly (n :: nodes) ↔
      (∀ symbol ∈ n.operator?, symbol ∈ knownOperators) ∧ KnownOnly nodes := by
  simp [KnownOnly]

/-- The operators of two lists of nodes are those of each. -/
@[simp]
theorem knownOnly_append : KnownOnly (nodes ++ more) ↔ KnownOnly nodes ∧ KnownOnly more := by
  simp [KnownOnly, or_imp, forall_and]

/-- The operators of a list of trees are those of its trees. -/
theorem knownOnly_subnodesOf (h : ∀ n ∈ nodes, KnownOnly n.subnodes) :
    KnownOnly (subnodesOf nodes) := by
  induction nodes with
  | nil => simp [subnodesOf]
  | cons n rest ih =>
    have hrest := ih fun m hm => h m (List.mem_cons_of_mem n hm)
    simpa [subnodesOf] using ⟨h n List.mem_cons_self, hrest⟩

/-- The operators of properties are those of their values. -/
theorem knownOnly_subnodesOfProperties {properties : List Property}
    (h : ∀ key value, .pair key value ∈ properties → KnownOnly value.subnodes) :
    KnownOnly (subnodesOfProperties properties) := by
  induction properties with
  | nil => simp [subnodesOfProperties]
  | cons p rest ih =>
    have hrest := ih fun key value hmem => h key value (List.mem_cons_of_mem p hmem)
    cases p with
    | shorthand key => simpa [subnodesOfProperties, Property.subnodes] using hrest
    | pair key value =>
      simpa [subnodesOfProperties, Property.subnodes] using
        ⟨h key value List.mem_cons_self, hrest⟩

/-- The operators of an expression exist. -/
theorem IsExpression.knownOnly (h : IsExpression n) : KnownOnly n.subnodes := by
  induction h with
  | number value => simp [Node.subnodes, Node.operator?]
  | identifier name => simp [Node.subnodes, Node.operator?]
  | member _ _ hobject hproperty =>
    simpa [Node.subnodes, Node.operator?] using ⟨hobject, hproperty⟩
  | call _ _ hcallee harguments =>
    simpa [Node.subnodes, Node.operator?] using ⟨hcallee, knownOnly_subnodesOf harguments⟩
  | binary _ _ ho hleft hright => simpa [Node.subnodes, Node.operator?] using ⟨ho, hleft, hright⟩
  | object _ hvalues =>
    simpa [Node.subnodes, Node.operator?] using knownOnly_subnodesOfProperties hvalues
  | assignment _ _ htarget hvalue =>
    simpa [Node.subnodes, Node.operator?] using ⟨htarget, hvalue⟩

/-- The operators of a statement exist. -/
theorem IsStatement.knownOnly (h : IsStatement n) : KnownOnly n.subnodes := by
  induction h with
  | @declaration _ _ value hvalue =>
    cases value with
    | none => simp [Node.subnodes, Node.operator?]
    | some value => simpa [Node.subnodes, Node.operator?] using (hvalue value rfl).knownOnly
  | function _ hbody => simpa [Node.subnodes, Node.operator?] using knownOnly_subnodesOf hbody
  | expression hn => exact hn.knownOnly

/-- The operators of a program of the grammar exist. -/
theorem Grammar.Program.knownOnly {w : List Symbol} (h : Program w n) :
    KnownOnly n.subnodes := by
  obtain ⟨body, rfl, hbody⟩ := h.exists_body
  simpa [Node.subnodes, Node.operator?] using
    knownOnly_subnodesOf fun m hm => (hbody m hm).knownOnly

end KnownOnly

/-- A program that was parsed succeeds in two environments of the same form, or
fails in both with the same error, and leaves environments of the same form. -/
theorem evaluate_sameForm {source : String} {n : Node} (hparse : parse source = .ok n)
    {env env' : Environment} (henv : env.SameForm env') :
    Eval.Outcomes Environment.SameForm Eval.AnyTwo (evaluate n env) (evaluate n env') := by
  obtain ⟨w, -, hprogram⟩ := parse_eq_ok_iff.1 hparse
  have hadmitted : ∀ m ∈ n.subnodes, m.Admitted Set.univ {symbol | symbol ∈ knownOperators} :=
    fun m hm => ⟨fun name _ => Set.mem_univ name, hprogram.knownOnly m hm⟩
  exact Eval.related_evaluate (Node.eval_related Eval.kept_form n hadmitted) henv

/-- The remainder of anything, once of null and once of an object, and then an
assignment to a constant. -/
theorem evaluate_sameForm_constant :
    let source := "let b = a % a; c = b"
    let n : Node := .program
      [.declaration "b" false (some (.binary (.identifier "a") (.identifier "a") "%")),
        .assignment (.identifier "c") (.identifier "b")]
    let env : Environment := .root ⟨[⟨"a", .null, false⟩, ⟨"c", .bool true, true⟩]⟩
    let env' : Environment := .root ⟨[⟨"a", .object [], false⟩, ⟨"c", .null, true⟩]⟩
    parse source = .ok n ∧ env.SameForm env' ∧
      Eval.Outcomes Environment.SameForm Eval.AnyTwo (evaluate n env) (evaluate n env') := by
  intro source n env env'
  have htokens : tokenize source = .ok
      [⟨.letWord, "let", ⟨1, 1⟩⟩, ⟨.ident, "b", ⟨1, 5⟩⟩, ⟨.equals, "=", ⟨1, 7⟩⟩,
        ⟨.ident, "a", ⟨1, 9⟩⟩, ⟨.operator, "%", ⟨1, 11⟩⟩, ⟨.ident, "a", ⟨1, 13⟩⟩,
        ⟨.semi, ";", ⟨1, 14⟩⟩, ⟨.ident, "c", ⟨1, 16⟩⟩, ⟨.equals, "=", ⟨1, 18⟩⟩,
        ⟨.ident, "b", ⟨1, 20⟩⟩, ⟨.eof, Token.endText, ⟨1, 21⟩⟩] := by decide +kernel
  have hparse : parse source = .ok n := parse_eq_ok_iff_parseTokens.2 ⟨_, htokens, rfl⟩
  have henv : env.SameForm env' := rfl
  exact ⟨hparse, henv, evaluate_sameForm hparse henv⟩

end Scriptlet
