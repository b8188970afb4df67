import Scriptlet.Proofs.Evaluation.Checked
import Scriptlet.Proofs.Evaluation.Proper
import Scriptlet.Proofs.Parser.Ending
import Scriptlet.Proofs.Script.Parse
import Scriptlet.Proofs.Token.Checked

/-!
# Scripts fail only in the ways of the language

A source text that has no other digits than decimal ones can be run in every
environment. It gives a value, or fails in one of the ways that the language
provides for: it is no sequence of tokens, the tokens are no program, or the
program fails properly. On the way no operation is asked for what is not there,
every number can be read, and parsing comes to an end.
-/

namespace Scriptlet

open Character

/-- Scans, parses and evaluates a source text, with all operations checked. -/
def Checked.run (source : String) : Checked Failure Environment Value :=
  fun env =>
    match Checked.tokenize source with
    | .error (.inl f) => .error (.inl f) env
    | .error (.inr error) => .error (.inr (.lexical error)) env
    | .ok tokens =>
      match parseTokens tokens with
      | .error failure => .error (.inr (.ofParse failure)) env
      | .ok node =>
        match Checked.eval node env with
        | .ok value env => .ok value env
        | .error (.inl f) env => .error (.inl f) env
        | .error (.inr error) env => .error (.inr (.evaluation error)) env

/-- Running a source text has no faults. -/
theorem Checked.run_eq (source : String) (env : Environment) :
    Checked.run source env = outcome (Scriptlet.run source env) := by
  unfold Checked.run Scriptlet.run parse
  rw [Checked.tokenize_eq]
  cases Scriptlet.tokenize source with
  | error error => rfl
  | ok tokens =>
    dsimp only [Except.mapError]
    cases parseTokens tokens with
    | error failure => rfl
    | ok node =>
      dsimp only
      rw [Checked.eval_eq, evaluate, lift]
      cases node.eval env <;> rfl

/-- The failures that the language provides for. -/
inductive Failure.Proper : Failure → Prop
  | lexical (error : LexError) : Proper (.lexical error)
  | grammatical (error : ParseError) : Proper (.grammatical error)
  | evaluation {error : EvalError} : error.Proper → Proper (.evaluation error)

/-- A text that is not parsed fails properly, or has a number that cannot be read,
with a digit that is no decimal digit. -/
theorem proper_or_unreadable_of_parse {source : String} {failure : Failure}
    (h : parse source = .error failure) :
    failure.Proper ∨ ∃ numeral, failure = .unreadable numeral ∧ ∃ c ∈ numeral.toList,
      c ∈ source.toList ∧ isDigit c = true ∧ Number.isDecimal c = false := by
  unfold parse at h
  cases htokens : tokenize source with
  | error error =>
    rw [htokens] at h
    cases h
    exact .inl (.lexical error)
  | ok tokens =>
    rw [htokens] at h
    dsimp only at h
    cases hparse : parseTokens tokens with
    | ok node =>
      rw [hparse] at h
      cases h
    | error cause =>
      rw [hparse] at h
      cases h
      obtain ⟨before, last, rfl, hlast, -⟩ := lexes_of_tokenize htokens
      have hblamed := blamedOn_of_parseTokens ⟨last, by simp, hlast⟩ hparse
      cases cause with
      | rejected error => exact .inl (.grammatical error)
      | unreadable text =>
        obtain ⟨x, hx, hkind, rfl, hnone⟩ := hblamed
        exact .inr ⟨x.text, rfl, exists_digit_of_read?_eq_none htokens hx hkind hnone⟩
      | endless => exact hblamed.elim

/-- A text whose digits are decimal digits is parsed, or fails properly. -/
theorem proper_of_parse {source : String} {failure : Failure}
    (hdecimal : ∀ c ∈ source.toList, isDigit c = true → Number.isDecimal c = true)
    (h : parse source = .error failure) : failure.Proper := by
  obtain hproper | ⟨numeral, -, c, -, hc, hdigit, hother⟩ := proper_or_unreadable_of_parse h
  · exact hproper
  · rw [hdecimal c hc hdigit] at hother
    cases hother

/-- What is parsed from a text fails properly when it is evaluated. -/
theorem proper_of_evaluate {source : String} {n : Node} {failure : Failure}
    {env after : Environment} (hparse : parse source = .ok n)
    (h : evaluate n env = .error failure after) : failure.Proper := by
  obtain ⟨w, -, hprogram⟩ := parse_eq_ok_iff.1 hparse
  unfold evaluate at h
  cases heval : n.eval env with
  | ok value env' =>
    rw [heval] at h
    cases h
  | error e env' =>
    rw [heval] at h
    cases h
    exact .evaluation (hprogram.failsProperly heval)

/-- A text whose digits are decimal digits fails properly when it is run. -/
theorem proper_of_run {source : String} {failure : Failure} {env after : Environment}
    (hdecimal : ∀ c ∈ source.toList, isDigit c = true → Number.isDecimal c = true)
    (h : run source env = .error failure after) : failure.Proper := by
  unfold run at h
  cases hparse : parse source with
  | error cause =>
    rw [hparse] at h
    cases h
    exact proper_of_parse hdecimal hparse
  | ok n =>
    rw [hparse] at h
    exact proper_of_evaluate hparse h

/-- A text whose digits are decimal digits is run without faults in every
environment, and gives a value or fails properly. -/
theorem run_proper {source : String}
    (hdecimal : ∀ c ∈ source.toList, isDigit c = true → Number.isDecimal c = true)
    (env : Environment) :
    (∃ value after, run source env = .ok value after ∧
      Checked.run source env = .ok value after) ∨
    ∃ failure after, run source env = .error failure after ∧ failure.Proper ∧
      Checked.run source env = .error (.inr failure) after := by
  have hchecked := Checked.run_eq source env
  cases hrun : run source env with
  | ok value after =>
    rw [hrun] at hchecked
    exact .inl ⟨value, after, rfl, hchecked⟩
  | error failure after =>
    rw [hrun] at hchecked
    exact .inr ⟨failure, after, rfl, proper_of_run hdecimal hrun, hchecked⟩

/-- The remainder of a division by zero, with a digit that is not an ASCII one,
and a name that does not exist. -/
theorem run_proper_missing_name :
    let source := "٣ % 0 + a"
    let env : Environment := .root .empty
    (∀ c ∈ source.toList, isDigit c = true → Number.isDecimal c = true) ∧
    ((∃ value after, run source env = .ok value after ∧
      Checked.run source env = .ok value after) ∨
    ∃ failure after, run source env = .error failure after ∧ failure.Proper ∧
      Checked.run source env = .error (.inr failure) after) := by
  intro source env
  have hall : source.toList.all (fun c => !isDigit c || Number.isDecimal c) = true := by decide
  have hdecimal : ∀ c ∈ source.toList, isDigit c = true → Number.isDecimal c = true := by
    intro c hc hdigit
    have h := List.all_eq_true.1 hall c hc
    rwa [hdigit, Bool.not_true, Bool.false_or] at h
  exact ⟨hdecimal, run_proper hdecimal env⟩

end Scriptlet
