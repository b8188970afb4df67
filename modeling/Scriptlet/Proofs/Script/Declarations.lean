import Scriptlet.Proofs.Environment.Form
import Scriptlet.Proofs.Evaluation.Expression
import Scriptlet.Proofs.Script.Concatenation

/-!
# What a script declares

Running a script declares, in the innermost scope, the names of the declarations
among its statements, one after the other, up to the statement that fails. It
declares nothing else: expressions declare nothing, and so do the bodies of
functions, which are not evaluated. A declaration whose value has changed other
variables before it fails does not declare its name. The outer scopes keep their
form.
-/

namespace Scriptlet

/-- The name that a statement declares, and whether it is constant. -/
def Node.declaration? : Node → Option (String × Bool)
  | .declaration name constant _ => some (name, constant)
  | _ => none

/-- The first statements, up to the one that fails, each evaluated in the environment
that those before it leave. -/
def completed : List Node → Environment → List Node
  | [], _ => []
  | n :: rest, env =>
    match n.eval env with
    | .ok _ env' => n :: completed rest env'
    | .error _ _ => []

/-- What the completed statements declare. -/
def declaredByCompleted (body : List Node) (env : Environment) : List (String × Bool) :=
  (completed body env).filterMap Node.declaration?

namespace Environment

/-- Whether an environment differs from another one, but for values, only in new
names in its innermost scope. -/
structure Adds (env : Environment) (new : List (String × Bool)) (env' : Environment) : Prop where
  /-- The new names come after the old ones. -/
  innermost : env'.innermost.form = env.innermost.form ++ new
  /-- The outer scopes keep their form. -/
  outer : env'.form.tail = env.form.tail
  /-- No new name is given twice. -/
  nodup : (new.map (·.1)).Nodup
  /-- No new name is an old one. -/
  fresh : ∀ entry ∈ new, entry.1 ∉ env.innermost.names

variable {env env' env'' : Environment} {new more : List (String × Bool)}

/-- An environment of the same form has no new names. -/
theorem adds_nil (h : env'.form = env.form) : env.Adds [] env' := by
  obtain ⟨outer, hform, -⟩ := env.form_eq_cons
  obtain ⟨outer', hform', -⟩ := env'.form_eq_cons
  refine ⟨?_, by rw [h], List.nodup_nil, by simp⟩
  rw [hform, hform'] at h
  rw [List.append_nil, (List.cons.inj h).1]

/-- The old names come first, and then the new ones. -/
theorem Adds.names_eq (h : env.Adds new env') :
    env'.innermost.names = env.innermost.names ++ new.map (·.1) := by
  rw [← Scope.map_fst_form, ← Scope.map_fst_form, h.innermost, List.map_append]

/-- The old constants come first, and then those among the new names. -/
theorem Adds.constants_eq (h : env.Adds new env') :
    env'.innermost.constants = env.innermost.constants ++ (new.filter (·.2)).map (·.1) := by
  rw [← Scope.map_fst_filter_form, ← Scope.map_fst_filter_form, h.innermost, List.filter_append,
    List.map_append]

/-- The outer scopes keep their names and constants. -/
theorem Adds.outer_eq (h : env.Adds new env') :
    env'.scopes.tail.map (fun s => (s.names, s.constants)) =
      env.scopes.tail.map fun s => (s.names, s.constants) := by
  have hread : ∀ env : Environment, env.scopes.tail.map (fun s => (s.names, s.constants)) =
      env.form.tail.map fun form => (form.map (·.1), (form.filter (·.2)).map (·.1)) := by
    intro env
    rw [form, ← List.map_tail, List.map_map]
    refine List.map_congr_left fun s _ => ?_
    rw [Function.comp_apply, Scope.map_fst_form, Scope.map_fst_filter_form]
  rw [hread, hread, h.outer]

/-- New names are added one after the other. -/
theorem Adds.trans (h : env.Adds new env') (h' : env'.Adds more env'') :
    env.Adds (new ++ more) env'' := by
  have hfresh : ∀ entry ∈ more, entry.1 ∉ env.innermost.names ∧ entry.1 ∉ new.map (·.1) := by
    intro entry hentry
    have hnot := h'.fresh entry hentry
    rw [h.names_eq, List.mem_append, not_or] at hnot
    exact hnot
  refine ⟨?_, h'.outer.trans h.outer, ?_, ?_⟩
  · rw [h'.innermost, h.innermost, List.append_assoc]
  · rw [List.map_append]
    refine List.Nodup.append h.nodup h'.nodup ?_
    intro name hname hmore
    obtain ⟨entry, hentry, rfl⟩ := List.mem_map.1 hmore
    exact (hfresh entry hentry).2 hname
  · intro entry hentry
    rcases List.mem_append.1 hentry with hentry | hentry
    · exact h.fresh entry hentry
    · exact (hfresh entry hentry).1

/-- Declaring a name that is new in the innermost scope adds it. -/
theorem adds_declare {name : String} (hnew : env.innermost.binds name = false) (value : Value)
    (constant : Bool) :
    env.Adds [(name, constant)]
      (env.withInnermost (env.innermost.add ⟨name, value, constant⟩)) := by
  obtain ⟨outer, hform, hwith⟩ := env.form_eq_cons
  refine ⟨?_, by rw [hwith, hform]; rfl, by simp, by simpa using Scope.binds_eq_false_iff.1 hnew⟩
  rw [innermost_withInnermost, Scope.form_add]

end Environment

namespace Eval

/-- Whether a computation leaves an environment of the same form. -/
def KeepsForm ⦃α : Type⦄ (x : Eval α) : Prop :=
  ∀ env, (after x env).form = env.form

/-- Computations one after the other keep the form if they all do. -/
theorem KeepsForm.bind {α β : Type} {x : Eval α} {f : α → Eval β} (hx : KeepsForm x)
    (hf : ∀ a, KeepsForm (f a)) : KeepsForm (x >>= f) := by
  intro env
  have hfirst := hx env
  cases hresult : x env with
  | ok a env' =>
    have hsecond := hf a env'
    rw [after, hresult] at hfirst
    rw [after, bind_of_ok hresult]
    exact hsecond.trans hfirst
  | error e env' =>
    rw [after, hresult] at hfirst
    rw [after, bind_of_error hresult]
    exact hfirst

/-- Looking up a name keeps the form. -/
theorem keepsForm_lookup (name : String) : KeepsForm (lookup name) := by
  intro env
  rw [after, lookup_apply]
  cases env.find? name <;> rfl

/-- Assigning to a name keeps the form. -/
theorem keepsForm_assign (name : String) (value : Value) : KeepsForm (assign name value) := by
  intro env
  rw [after, assign_apply]
  cases env.find? name with
  | none => rfl
  | some v =>
    cases hv : v.constant with
    | true => simp [hv]
    | false => simpa [hv] using Environment.form_set env name value

/-- The steps of expressions keep the form. -/
theorem keepsForm_steps : StepClosed KeepsForm where
  pure _ _ := rfl
  bind := KeepsForm.bind
  lookup := keepsForm_lookup
  assign := keepsForm_assign
  target _ _ := rfl
  unsupported _ _ := rfl

end Eval

open Environment Eval

/-- Whether a statement adds what it declares if it is completed, and nothing
otherwise. -/
def Node.DeclaresIfCompleted (n : Node) : Prop :=
  ∀ env, match n.eval env with
    | .ok _ env' => env.Adds n.declaration?.toList env'
    | .error _ env' => env.Adds [] env'

/-- A statement that keeps the form declares nothing. -/
theorem declaresIfCompleted_of_keepsForm {n : Node} (h : KeepsForm n.eval)
    (hn : n.declaration? = none) : n.DeclaresIfCompleted := by
  intro env
  have hform := h env
  rw [after] at hform
  cases heval : n.eval env with
  | ok value env' =>
    rw [heval] at hform
    rw [hn]
    exact adds_nil hform
  | error e env' =>
    rw [heval] at hform
    exact adds_nil hform

/-- A declaration whose value keeps the form adds its name, unless the value fails or
the name is not new. -/
theorem adds_of_declare {x : Eval Value} (hx : KeepsForm x) (name : String) (constant : Bool)
    (env : Environment) :
    match (x >>= fun result => Eval.declare name result constant) env with
    | .ok _ env' => env.Adds [(name, constant)] env'
    | .error _ env' => env.Adds [] env' := by
  have hform := hx env
  rw [after] at hform
  cases hresult : x env with
  | error e env' =>
    rw [hresult] at hform
    rw [bind_of_error hresult]
    exact adds_nil hform
  | ok value env' =>
    rw [hresult] at hform
    rw [bind_of_ok hresult, declare_apply]
    cases hbinds : env'.innermost.binds name with
    | true => exact adds_nil hform
    | false => exact (adds_nil hform).trans (adds_declare hbinds value constant)

/-- Statements add what they declare if they are completed. -/
theorem IsStatement.declaresIfCompleted {n : Node} (h : IsStatement n) :
    n.DeclaresIfCompleted := by
  cases h with
  | @declaration name constant value hvalue =>
    cases value with
    | none => exact adds_of_declare (keepsForm_steps.pure Value.null) name constant
    | some value =>
      exact adds_of_declare ((hvalue value rfl).eval_closed keepsForm_steps) name constant
  | function _ =>
    exact declaresIfCompleted_of_keepsForm (keepsForm_steps.unsupported _) rfl
  | expression hn =>
    refine declaresIfCompleted_of_keepsForm (hn.eval_closed keepsForm_steps) ?_
    cases hn <;> rfl

/-- What is declared by a completed statement and those after it. -/
theorem declaredByCompleted_of_ok {n : Node} {env env' : Environment} {value : Value}
    (h : n.eval env = .ok value env') (rest : List Node) :
    declaredByCompleted (n :: rest) env =
      n.declaration?.toList ++ declaredByCompleted rest env' := by
  have hcompleted : completed (n :: rest) env = n :: completed rest env' := by rw [completed, h]
  rw [declaredByCompleted, hcompleted, List.filterMap_cons]
  cases n.declaration? <;> rfl

/-- Nothing is declared from a statement on that fails. -/
theorem declaredByCompleted_of_error {n : Node} {env env' : Environment} {e : EvalError}
    (h : n.eval env = .error e env') (rest : List Node) :
    declaredByCompleted (n :: rest) env = [] := by
  have hcompleted : completed (n :: rest) env = [] := by rw [completed, h]
  rw [declaredByCompleted, hcompleted, List.filterMap_nil]

/-- Statements one after the other add what the completed ones declare. -/
theorem adds_evalBody {body : List Node} (h : ∀ n ∈ body, IsStatement n) (last : Value)
    (env : Environment) :
    env.Adds (declaredByCompleted body env) (after (evalBody last body) env) := by
  induction body generalizing last env with
  | nil => exact adds_nil rfl
  | cons n rest ih =>
    have hn := (h n List.mem_cons_self).declaresIfCompleted env
    have hrest := ih fun m hm => h m (List.mem_cons_of_mem n hm)
    rw [evalBody]
    cases heval : n.eval env with
    | error e env' =>
      rw [heval] at hn
      rw [declaredByCompleted_of_error heval, after, bind_of_error heval]
      exact hn
    | ok value env' =>
      rw [heval] at hn
      rw [declaredByCompleted_of_ok heval, after, bind_of_ok heval]
      exact hn.trans (hrest value env')

/-- The completed statements come first. -/
theorem completed_isPrefix (body : List Node) (env : Environment) :
    completed body env <+: body := by
  induction body generalizing env with
  | nil => exact List.prefix_refl _
  | cons n rest ih =>
    rw [completed]
    cases n.eval env with
    | error e env' => exact List.nil_prefix
    | ok value env' => exact List.cons_prefix_cons.2 ⟨rfl, ih env'⟩

/-- Statements succeed if they are all completed. -/
theorem evalBody_ok_iff_completed (body : List Node) (last : Value) (env : Environment) :
    (∃ value env', evalBody last body env = .ok value env') ↔ completed body env = body := by
  induction body generalizing last env with
  | nil => exact ⟨fun _ => rfl, fun _ => ⟨last, env, rfl⟩⟩
  | cons n rest ih =>
    rw [evalBody, completed]
    cases heval : n.eval env with
    | error e env' =>
      rw [bind_of_error heval]
      simp
    | ok value env' =>
      rw [bind_of_ok heval, ih]
      simp

/-- A program leaves the environment that its statements leave. -/
theorem after_evaluate_program (body : List Node) (env : Environment) :
    after (evaluate (.program body)) env = after (evalBody .null body) env := by
  rw [after, after]
  cases hbody : evalBody .null body env with
  | ok value env' => rw [evaluate_program_ok hbody]
  | error e env' => rw [evaluate_program_error hbody]

/-- A program succeeds if its statements are all completed. -/
theorem evaluate_program_ok_iff_completed (body : List Node) (env : Environment) :
    (∃ value env', evaluate (.program body) env = .ok value env') ↔
      completed body env = body := by
  rw [← evalBody_ok_iff_completed body .null env]
  cases hbody : evalBody .null body env with
  | ok value env' =>
    rw [evaluate_program_ok hbody]
    simp
  | error e env' =>
    rw [evaluate_program_error hbody]
    simp

/-- Running a script completes its first statements, and all of them if it succeeds.
Whether it succeeds or fails, the names in the innermost scope are then the old ones
and after them those that the completed statements declare, all of which are new and
different; the constants have grown by the constants among these; and every outer
scope has the same names and constants as before. -/
theorem run_declares_completed (source : String) (n : Node) (env : Environment)
    (h : parse source = .ok n) :
    ∃ body, n = .program body ∧ completed body env <+: body ∧
      ((∃ value env', run source env = .ok value env') ↔ completed body env = body) ∧
      (after (run source) env).innermost.names =
        env.innermost.names ++ (declaredByCompleted body env).map (·.1) ∧
      ((declaredByCompleted body env).map (·.1)).Nodup ∧
      (∀ entry ∈ declaredByCompleted body env, entry.1 ∉ env.innermost.names) ∧
      (after (run source) env).innermost.constants =
        env.innermost.constants ++ ((declaredByCompleted body env).filter (·.2)).map (·.1) ∧
      (after (run source) env).scopes.tail.map (fun s => (s.names, s.constants)) =
        env.scopes.tail.map fun s => (s.names, s.constants) := by
  obtain ⟨w, -, hprogram⟩ := parse_eq_ok_iff.1 h
  obtain ⟨body, rfl, hbody⟩ := hprogram.exists_body
  have hadds := adds_evalBody hbody .null env
  rw [← after_evaluate_program, ← run_of_parse h] at hadds
  refine ⟨body, rfl, completed_isPrefix body env, ?_, hadds.names_eq, hadds.nodup, hadds.fresh,
    hadds.constants_eq, hadds.outer_eq⟩
  rw [run_of_parse h]
  exact evaluate_program_ok_iff_completed body env

/-- A declaration that assigns to an outer variable and then fails declares nothing;
the constant before it stays. -/
theorem run_declares_completed_redeclaration :
    let source := "const y=a;let y=a=y;"
    let env : Environment := .child ⟨[]⟩ (.root ⟨[⟨"a", .null, false⟩]⟩)
    let first : Node := .declaration "y" true (some (.identifier "a"))
    let second : Node :=
      .declaration "y" false (some (.assignment (.identifier "a") (.identifier "y")))
    parse source = .ok (.program [first, second]) ∧ completed [first, second] env = [first] ∧
      (¬ ∃ value env', run source env = .ok value env') ∧
      (after (run source) env).innermost.names = ["y"] ∧
      (after (run source) env).innermost.constants = ["y"] ∧
      (after (run source) env).scopes.tail.map (fun s => (s.names, s.constants)) =
        [(["a"], [])] := by
  intro source env first second
  have htokens : tokenize source = .ok
      [⟨.constWord, "const", ⟨1, 1⟩⟩, ⟨.ident, "y", ⟨1, 7⟩⟩, ⟨.equals, "=", ⟨1, 8⟩⟩,
        ⟨.ident, "a", ⟨1, 9⟩⟩, ⟨.semi, ";", ⟨1, 10⟩⟩, ⟨.letWord, "let", ⟨1, 11⟩⟩,
        ⟨.ident, "y", ⟨1, 15⟩⟩, ⟨.equals, "=", ⟨1, 16⟩⟩, ⟨.ident, "a", ⟨1, 17⟩⟩,
        ⟨.equals, "=", ⟨1, 18⟩⟩, ⟨.ident, "y", ⟨1, 19⟩⟩, ⟨.semi, ";", ⟨1, 20⟩⟩,
        ⟨.eof, Token.endText, ⟨1, 21⟩⟩] := by decide +kernel
  have h : parse source = .ok (.program [first, second]) :=
    parse_eq_ok_iff_parseTokens.2 ⟨_, htokens, rfl⟩
  have hcompleted : completed [first, second] env = [first] := rfl
  obtain ⟨body, hbody, -, hok, hnames, -, -, hconstants, houter⟩ :=
    run_declares_completed source _ env h
  obtain rfl : [first, second] = body := Node.program.inj hbody
  refine ⟨h, hcompleted, ?_, hnames, hconstants, houter⟩
  rw [hok, hcompleted]
  simp

end Scriptlet
