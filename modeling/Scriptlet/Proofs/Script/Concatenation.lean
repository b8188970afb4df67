import Scriptlet.Proofs.Script.Parse
import Scriptlet.Proofs.Token.Spelling

/-!
# Scripts one after the other

A script whose last token is a semicolon, or that has no tokens, can be
followed by any other script. The statements of the two together are those of
the first and then those of the second, and running them together is running
the first and, if it does not fail, the second in what the first has left.
-/

namespace Scriptlet

namespace Grammar

/-- An expression does not end with a semicolon. -/
theorem Expression.not_ends_semi {w : List Symbol} {n : Node} (h : Expression w n) :
    ¬ Ends w (· = .semi) := by
  intro hsemi
  obtain ⟨u, x, -, hx, hk⟩ := h.ends.and hsemi
  simp [EndsExpression, EndsSum, hk] at hx

/-- What starts a longer sequence starts its first part, unless that is
empty. -/
theorem Starts.of_append {w v : List Symbol} {P : Kind → Prop} (h : Starts (w ++ v) P)
    (hw : w ≠ []) : Starts w P := by
  obtain ⟨y, w, rfl⟩ := List.exists_cons_of_ne_nil hw
  obtain ⟨x, u, he, hx⟩ := h
  obtain ⟨rfl, -⟩ := List.cons.inj he
  exact ⟨y, w, rfl, hx⟩

/-- A sequence is empty or ends with what its last symbol is. -/
theorem eq_nil_or_ends {w : List Symbol} {P : Kind → Prop} (h : ∀ x ∈ w.getLast?, P x.kind) :
    w = [] ∨ Ends w P := by
  rcases List.eq_nil_or_concat w with rfl | ⟨w, x, rfl⟩
  · exact .inl rfl
  · exact .inr ⟨w, x, List.concat_eq_append, h x (by simp)⟩

/-- Statements that are empty or end with a semicolon can be followed by other
statements. -/
theorem Statements.append {w v : List Symbol} {body more : List Node} (h : Statements w body)
    (hw : w = [] ∨ Ends w (· = .semi)) (hv : Statements v more) :
    Statements (w ++ v) (body ++ more) := by
  match h with
  | .nil => exact hv
  | .cons (w := w) (v := u) hn hbody =>
    have hu : u = [] ∨ Ends u (· = .semi) := by
      by_cases hu : u = []
      · exact .inl hu
      · exact .inr ((hw.resolve_left (by simp [hu])).of_append hu)
    rw [List.append_assoc]
    exact .cons hn (hbody.append hu hv)
  | .bare (w := w) (v := u) hn hbody hside =>
    have hends : Ends (w ++ u) (· = .semi) := by
      refine hw.resolve_left fun h => ?_
      exact hn.ends.ne_nil (List.append_eq_nil_iff.1 h).1
    have hu : u ≠ [] := by
      rintro rfl
      rw [List.append_nil] at hends
      exact hn.not_ends_semi hends
    rw [List.append_assoc]
    exact .bare hn (hbody.append (.inr (hends.of_append hu)) hv)
      fun hstarts => hside (hstarts.of_append hu)

end Grammar

/-- Statements are evaluated one after the other. -/
theorem evalBody_append (last : Value) (body more : List Node) :
    evalBody last (body ++ more) = evalBody last body >>= fun value => evalBody value more := by
  induction body generalizing last with
  | nil => rw [List.nil_append, evalBody, pure_bind]
  | cons n body ih => simp only [List.cons_append, evalBody, ih, bind_assoc]

/-- The value before the first statement does not matter. -/
theorem evalBody_of_ne_nil {body : List Node} (h : body ≠ []) (first second : Value) :
    evalBody first body = evalBody second body := by
  cases body with
  | nil => exact absurd rfl h
  | cons n body => rw [evalBody, evalBody]

/-- Running a text is evaluating its program. -/
theorem run_of_parse {source : String} {n : Node} (h : parse source = .ok n) :
    run source = evaluate n := by
  funext env
  rw [run, h]

/-- A program whose statements succeed succeeds. -/
theorem evaluate_program_ok {body : List Node} {env env' : Environment} {value : Value}
    (h : evalBody .null body env = .ok value env') :
    evaluate (.program body) env = .ok value env' := by
  simp [evaluate, Node.eval, h]

/-- A program whose statements fail fails. -/
theorem evaluate_program_error {body : List Node} {env env' : Environment} {e : EvalError}
    (h : evalBody .null body env = .error e env') :
    evaluate (.program body) env = .error (.evaluation e) env' := by
  simp [evaluate, Node.eval, h]

/-- Programs are evaluated one after the other, and the value is that of the
last one that is not empty. -/
theorem evaluate_append (body more : List Node) :
    evaluate (.program (body ++ more)) = do
      let value ← evaluate (.program body)
      let value' ← evaluate (.program more)
      return if more.isEmpty then value else value' := by
  funext env
  have hboth : evalBody .null (body ++ more) env =
      EStateM.bind (evalBody .null body) (fun value => evalBody value more) env := by
    rw [evalBody_append]
    rfl
  change _ = EStateM.bind _ _ env
  cases hbody : evalBody .null body env with
  | error e env' =>
    rw [EStateM.bind, hbody] at hboth
    rw [EStateM.bind, evaluate_program_error hbody, evaluate_program_error hboth]
  | ok value env' =>
    rw [EStateM.bind, hbody] at hboth
    change evalBody .null (body ++ more) env = evalBody value more env' at hboth
    rw [EStateM.bind, evaluate_program_ok hbody]
    change _ = EStateM.bind _ _ env'
    by_cases hmore : more = []
    · subst hmore
      rw [EStateM.bind, evaluate_program_ok hboth]
      rfl
    · rw [evalBody_of_ne_nil hmore value .null] at hboth
      cases hsecond : evalBody .null more env' with
      | error e env'' =>
        rw [hsecond] at hboth
        rw [EStateM.bind, evaluate_program_error hsecond, evaluate_program_error hboth]
      | ok value' env'' =>
        rw [hsecond] at hboth
        rw [EStateM.bind, evaluate_program_ok hsecond, evaluate_program_ok hboth]
        simp [hmore, pure, EStateM.pure]

/-- If the first of two scripts has no tokens or its last one is a semicolon,
the program of both together is the first program and then the second, and
running both together is running the first and then the second. -/
theorem run_append {a b : String} {A B : List Node} {tokens : List Token} {last : Token}
    (ha : parse a = .ok (.program A)) (hb : parse b = .ok (.program B))
    (htokens : tokenize a = .ok (tokens ++ [last]))
    (hclosed : ∀ t ∈ tokens.getLast?, t.kind = .semi) :
    parse (a ++ b) = .ok (.program (A ++ B)) ∧
      run (a ++ b) = do
        let value ← run a
        let value' ← run b
        return if B.isEmpty then value else value' := by
  have hboth : parse (a ++ b) = .ok (.program (A ++ B)) := by
    obtain ⟨hw, hA⟩ := lexes_of_parse ha htokens
    obtain ⟨v, hv, hB⟩ := parse_eq_ok_iff.1 hb
    have hsemi : ∀ x ∈ (tokens.map Token.symbol).getLast?, x.kind = .semi := by
      intro x hx
      rw [List.getLast?_map, Option.mem_def, Option.map_eq_some_iff] at hx
      obtain ⟨t, ht, rfl⟩ := hx
      exact hclosed t ht
    have hlexes := hw.append (fun _ => rfl) hsemi hv
    rw [← String.toList_append] at hlexes
    obtain ⟨hA⟩ := hA
    obtain ⟨hB⟩ := hB
    exact hlexes.parse (.statements (hA.append (Grammar.eq_nil_or_ends hsemi) hB))
  refine ⟨hboth, ?_⟩
  rw [run_of_parse hboth, run_of_parse ha, run_of_parse hb, evaluate_append]

set_option maxRecDepth 1024 in
/-- A parenthesis after a closed script starts a statement of its own. -/
theorem run_append_group :
    let tokens : List Token := [⟨.ident, "a", ⟨1, 1⟩⟩, ⟨.semi, ";", ⟨1, 2⟩⟩]
    let last : Token := ⟨.eof, Token.endText, ⟨1, 3⟩⟩
    parse "a;" = .ok (.program [.identifier "a"]) ∧ parse "(b)" = .ok (.program [.identifier "b"]) ∧
      tokenize "a;" = .ok (tokens ++ [last]) ∧ (∀ t ∈ tokens.getLast?, t.kind = .semi) ∧
      parse ("a;" ++ "(b)") = .ok (.program [.identifier "a", .identifier "b"]) ∧
      run ("a;" ++ "(b)") = (run "a;" >>= fun _ => run "(b)") := by
  intro tokens last
  have htokens : tokenize "a;" = .ok (tokens ++ [last]) := by cbv
  have hgroup : tokenize "(b)" = .ok [⟨.lpar, "(", ⟨1, 1⟩⟩, ⟨.ident, "b", ⟨1, 2⟩⟩,
      ⟨.rpar, ")", ⟨1, 3⟩⟩, ⟨.eof, Token.endText, ⟨1, 4⟩⟩] := by cbv
  have ha : parse "a;" = .ok (.program [.identifier "a"]) :=
    parse_eq_ok_iff_parseTokens.2 ⟨_, htokens, rfl⟩
  have hb : parse "(b)" = .ok (.program [.identifier "b"]) :=
    parse_eq_ok_iff_parseTokens.2 ⟨_, hgroup, rfl⟩
  have hclosed : ∀ t ∈ tokens.getLast?, t.kind = .semi := by decide
  obtain ⟨hparse, hrun⟩ := run_append ha hb htokens hclosed
  exact ⟨ha, hb, htokens, hclosed, hparse, by simpa using hrun⟩

end Scriptlet
