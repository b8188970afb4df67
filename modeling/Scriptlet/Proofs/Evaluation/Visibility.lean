import Scriptlet.Proofs.Environment.Access
import Scriptlet.Proofs.Evaluation.Related

/-!
# What an evaluation sees

An evaluation sees of an environment only what the names of the tree mean there
and which of them the innermost scope has. Chains of scopes may differ in
everything else, even in how many scopes they have: as long as they agree on
the names of the tree, evaluating it gives the same value or the same error, and
the chains still agree on them.
-/

namespace Scriptlet

/-- Whether two environments agree on names: each of them means the same
variable in both or nothing in both, and the innermost scopes have the same of
them. -/
structure Environment.Agree (names : Set String) (env env' : Environment) : Prop where
  /-- A name means a variable with the same value and the same constancy. -/
  find?_eq {name : String} : name ∈ names → env.find? name = env'.find? name
  /-- A name is in both innermost scopes or in none. -/
  binds_eq {name : String} : name ∈ names → env.innermost.binds name = env'.innermost.binds name

namespace Eval

open Environment

variable {names : Set String} {name : String}

/-- Looking up a name on which environments agree. -/
theorem related_lookup (hname : name ∈ names) :
    Related (Agree names) Eq (lookup name) (lookup name) := by
  intro env env' henv
  rw [lookup_apply, lookup_apply, henv.find?_eq hname]
  cases env'.find? name with
  | some v => exact .ok rfl henv
  | none => exact .error henv

/-- Environments agree after the same assignment if they agreed before. -/
theorem agree_set {env env' : Environment} (henv : env.Agree names env') {v : Variable}
    (hname : name ∈ names) (hfind : env.find? name = some v) (value : Value) :
    (env.set name value).Agree names (env'.set name value) where
  find?_eq {other} hother := by
    by_cases hne : other = name
    · have hfind' : env'.find? name = some v := henv.find?_eq hname ▸ hfind
      rw [hne, find?_set_self hfind value, find?_set_self hfind' value]
    · rw [find?_set_of_ne hne, find?_set_of_ne hne, henv.find?_eq hother]
  binds_eq hother := by
    rw [binds_innermost_set, binds_innermost_set, henv.binds_eq hother]

/-- Assigning to a name on which environments agree. -/
theorem related_assign (hname : name ∈ names) (value : Value) :
    Related (Agree names) Eq (assign name value) (assign name value) := by
  intro env env' henv
  rw [assign_apply, assign_apply, ← henv.find?_eq hname]
  cases hfind : env.find? name with
  | none => exact .error henv
  | some v =>
    cases hv : v.constant with
    | true => simpa [hv] using .error henv
    | false => simpa [hv] using .ok rfl (agree_set henv hname hfind value)

/-- Environments agree after the same declaration if they agreed before. -/
theorem agree_declare {env env' : Environment} (henv : env.Agree names env') {v : Variable}
    (hname : v.name ∈ names) (hnew : env.innermost.binds v.name = false) :
    (env.withInnermost (env.innermost.add v)).Agree names
      (env'.withInnermost (env'.innermost.add v)) where
  find?_eq {other} hother := by
    by_cases hne : other = v.name
    · have hnew' : env'.innermost.binds v.name = false := henv.binds_eq hname ▸ hnew
      rw [hne, find?_declare_self hnew, find?_declare_self hnew']
    · rw [find?_declare_of_ne hne, find?_declare_of_ne hne, henv.find?_eq hother]
  binds_eq hother := by
    rw [binds_innermost_declare, binds_innermost_declare, henv.binds_eq hother]

/-- Declaring a name on which environments agree. -/
theorem related_declare (hname : name ∈ names) (value : Value) (constant : Bool) :
    Related (Agree names) Eq (declare name value constant) (declare name value constant) := by
  intro env env' henv
  rw [declare_apply, declare_apply, ← henv.binds_eq hname]
  cases hnew : env.innermost.binds name with
  | true => exact .error henv
  | false =>
    have hagree := agree_declare henv (v := ⟨name, value, constant⟩) hname hnew
    exact .ok rfl hagree

/-- An operator does not look at the environment. -/
theorem related_operate (symbol : String) (a b : Value) :
    Related (Agree names) Eq (operate symbol a b) (operate symbol a b) := by
  unfold operate
  split
  · split
    · exact related_pure rfl
    · exact related_throw _
  · exact related_pure rfl

/-- Entries with the same keys and the same values are the same. -/
theorem eq_of_sameEntry {entries entries' : List (String × Value)}
    (h : List.Forall₂ (SameEntry Eq) entries entries') : entries = entries' := by
  have hsame : List.Forall₂ Eq entries entries' :=
    h.imp fun p q hpq => Prod.ext hpq.1 hpq.2
  exact List.forall₂_eq_eq_eq ▸ hsame

/-- The steps of an evaluation keep environments in agreement. -/
theorem kept_agree : Kept (Agree names) Eq names Set.univ where
  number _ := rfl
  null := rfl
  object hentries := congrArg Value.object (eq_of_sameEntry hentries)
  lookup := related_lookup
  assign hname hvalue := hvalue ▸ related_assign hname _
  declare hname hvalue := hvalue ▸ related_declare hname _ _
  operate _ ha hb := ha ▸ hb ▸ related_operate _ _ _

end Eval

/-- Evaluating a tree in two environments that agree on its names gives the same
value or the same error, and leaves them in agreement. The environments may
also agree on more names than the tree has. -/
theorem evaluate_agree {n : Node} {names : Set String} (hnames : ∀ name ∈ n.names, name ∈ names)
    {env env' : Environment} (henv : env.Agree names env') :
    Eval.Outcomes (Environment.Agree names) Eq (evaluate n env) (evaluate n env') := by
  have hadmitted : ∀ m ∈ n.subnodes, m.Admitted names Set.univ := by
    intro m hm
    refine ⟨fun name hname => hnames name ?_, fun symbol _ => Set.mem_univ symbol⟩
    exact List.mem_flatMap.2 ⟨m, hm, hname⟩
  exact Eval.related_evaluate (Node.eval_related Eval.kept_agree n hadmitted) henv

/-- A declaration that starts to hide an outer name, an assignment to an outer
name and a name that does not exist, in chains of two and of three scopes. -/
theorem evaluate_agree_other_depth :
    let n : Node := .program
      [.declaration "a" false (some (.identifier "b")),
        .assignment (.identifier "b") (.object [.shorthand "a"]), .identifier "c"]
    let names : Set String := {name | name ∈ n.names}
    let env : Environment := .child ⟨[⟨"x", .null, true⟩]⟩
      (.root ⟨[⟨"a", .null, true⟩, ⟨"b", .bool true, false⟩]⟩)
    let env' : Environment := .child .empty (.child ⟨[⟨"b", .bool true, false⟩]⟩
      (.root ⟨[⟨"b", .null, true⟩, ⟨"a", .null, true⟩]⟩))
    (∀ name ∈ n.names, name ∈ names) ∧ env.Agree names env' ∧
      Eval.Outcomes (Environment.Agree names) Eq (evaluate n env) (evaluate n env') := by
  intro n names env env'
  have hnames : ∀ name ∈ n.names, name ∈ names := fun _ h => h
  have hcases : ∀ name ∈ names, name = "a" ∨ name = "b" ∨ name = "c" := by
    intro name hname
    have hmem : name ∈ ["a", "b", "b", "a", "c"] := hname
    simp only [List.mem_cons, List.not_mem_nil, or_false] at hmem
    tauto
  have hagree : env.Agree names env' := by
    constructor
    · intro name hname
      rcases hcases name hname with rfl | rfl | rfl <;> rfl
    · intro name hname
      rcases hcases name hname with rfl | rfl | rfl <;> rfl
  exact ⟨hnames, hagree, evaluate_agree hnames hagree⟩

end Scriptlet
