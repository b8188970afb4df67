import Mathlib.Data.List.Basic
import Scriptlet.Proofs.Parser.Transfer
import Scriptlet.Proofs.Script.Concatenation

/-!
# The layout of a script

Where the tokens of a script stand does not matter to what it does. Parsing two
lists of tokens with the same symbols gives the same program, or fails in the
same way; a complaint is then about the tokens with the same index. So scripts
that differ only in their layout do the same in every environment.

The two lists are compared with a third one, in which each token has its index
for its place. Tokens that are alike in one of the lists are told apart there.
-/

namespace Scriptlet

open Scriptlet.Parser TokenStream

variable {tokens others : List Token}

/-- Each token with its index for its place. -/
def numbered (tokens : List Token) : List Token :=
  tokens.mapIdx fun j x => { x with position := ⟨j, 0⟩ }

/-- The place in a list of a token that has its index for its place. -/
def placeIn (tokens : List Token) (x : Token) : Position :=
  (tokens[x.position.line]?.getD .missing).position

/-- A numbered list has the same end tokens. -/
theorem exists_end_numbered (hend : ∃ x ∈ tokens, x.kind = .eof) :
    ∃ x ∈ numbered tokens, x.kind = .eof := by
  obtain ⟨x, hx, hk⟩ := hend
  obtain ⟨j, hj, rfl⟩ := List.mem_iff_getElem.1 hx
  exact ⟨_, List.mem_mapIdx.2 ⟨j, hj, rfl⟩, hk⟩

/-- A numbered token is found at its number. -/
theorem getElem?_line_of_mem {x : Token} (hx : x ∈ numbered tokens) :
    (numbered tokens)[x.position.line]? = some x := by
  obtain ⟨j, hj, rfl⟩ := List.mem_mapIdx.1 hx
  rw [numbered, List.getElem?_mapIdx, List.getElem?_eq_getElem hj]
  rfl

/-- A list is a copy of the numbered list of any other list with the same symbols: the
place in that list is the one of the token that is found there. -/
theorem copiedUpTo_numbered (h : tokens.map Token.symbol = others.map Token.symbol)
    (limit : Nat) : CopiedUpTo (placeIn others) (numbered tokens) others limit := by
  intro k _
  have hsymbol : (tokens.map Token.symbol)[k]? = (others.map Token.symbol)[k]? := by rw [h]
  rw [List.getElem?_map, List.getElem?_map] at hsymbol
  rw [numbered, List.getElem?_mapIdx, Option.map_map]
  cases htoken : tokens[k]? with
  | none =>
    rw [htoken] at hsymbol
    simpa using hsymbol.symm
  | some x =>
    rw [htoken] at hsymbol
    obtain ⟨y, hy, hxy⟩ := Option.map_eq_some_iff.1 hsymbol.symm
    obtain ⟨hkind, htext⟩ := Symbol.mk.inj hxy
    have hplace : placeIn others { x with position := ⟨k, 0⟩ } = y.position := by
      rw [placeIn, hy]
      rfl
    rw [hy, Option.map_some, Function.comp_apply, Token.moved, hplace, ← hkind, ← htext]

/-- A numbered token is moved to the token with its number. -/
theorem getElem?_line_moved (h : tokens.map Token.symbol = others.map Token.symbol) {x : Token}
    (hx : x ∈ numbered tokens) :
    others[x.position.line]? = some (x.moved (placeIn others)) := by
  rw [copiedUpTo_numbered h x.position.line _ (Nat.le_refl _), getElem?_line_of_mem hx,
    Option.map_some]

/-- What parsing a list answers, told from the answer for the numbered list. -/
def movedAnswer (place : Token → Position) : Except ParseFailure Node → Except ParseFailure Node
  | .ok n => .ok n
  | .error failure => .error (failure.moved place)

/-- Parsing a list is parsing the numbered list of any other list with the same
symbols. -/
theorem parseTokens_eq_movedAnswer (hend : ∃ x ∈ tokens, x.kind = .eof)
    (h : tokens.map Token.symbol = others.map Token.symbol) :
    parseTokens others = movedAnswer (placeIn others) (parseTokens (numbered tokens)) := by
  rw [parseTokens, parseTokens,
    program_eq_moved (exists_end_numbered hend) (copiedUpTo_numbered h _)]
  cases program (.ofTokens (numbered tokens)) with
  | ok n t => rfl
  | error failure t => rfl

/-- Whether parsing two lists answers alike: with the same program, with the same
complaint about the tokens with the same index, or with the same number that cannot
be read. -/
inductive AnswerAlike (tokens others : List Token) :
    Except ParseFailure Node → Except ParseFailure Node → Prop
  | parsed (n : Node) : AnswerAlike tokens others (.ok n) (.ok n)
  | rejected {e e' : ParseError} (j : Nat) : tokens[j]? = some e.token →
      others[j]? = some e'.token → e.text = e'.text → e.expected = e'.expected →
        AnswerAlike tokens others (.error (.rejected e)) (.error (.rejected e'))
  | unreadable (text : String) :
      AnswerAlike tokens others (.error (.unreadable text)) (.error (.unreadable text))

/-- A complaint about a token at another place has the same words. -/
theorem text_moved (complaint : Complaint) (x : Token) (place : Token → Position) :
    complaint.text (x.moved place) = complaint.text x := by
  cases complaint <;> rfl

/-- Lists with the same symbols are answered alike. -/
theorem answerAlike_parseTokens (hend : ∃ x ∈ tokens, x.kind = .eof)
    (h : tokens.map Token.symbol = others.map Token.symbol) :
    AnswerAlike tokens others (parseTokens tokens) (parseTokens others) := by
  rw [parseTokens_eq_movedAnswer hend rfl, parseTokens_eq_movedAnswer hend h]
  cases hparse : parseTokens (numbered tokens) with
  | ok n => exact .parsed n
  | error failure =>
    have hblamed := blamedOn_of_parseTokens (exists_end_numbered hend) hparse
    cases failure with
    | rejected e =>
      refine .rejected e.token.position.line (getElem?_line_moved rfl hblamed)
        (getElem?_line_moved h hblamed) ?_ rfl
      rw [ParseError.text, ParseError.text, text_moved, text_moved]
    | unreadable text => exact .unreadable text
    | endless => exact hblamed.elim

section Sources

variable {source : String}

/-- A text whose tokens are no program is parsed with their failure. -/
theorem parse_of_parseTokens_error {failure : ParseFailure} (htokens : tokenize source = .ok tokens)
    (h : parseTokens tokens = .error failure) : parse source = .error (.ofParse failure) := by
  rw [parse, htokens]
  dsimp only
  rw [h]

/-- A text that is no program changes nothing. -/
theorem run_of_parse_error {failure : Failure} (h : parse source = .error failure)
    (env : Environment) : run source env = .error failure env := by
  rw [run, h]

/-- Lists with the same symbols are answered alike. Two texts whose tokens have the
same symbols are the same program and do the same in every environment, or are
rejected with the same complaint, or have the same number that cannot be read. -/
theorem layout_irrelevant :
    (∀ tokens others : List Token, (∃ x ∈ tokens, x.kind = .eof) →
      tokens.map Token.symbol = others.map Token.symbol →
        AnswerAlike tokens others (parseTokens tokens) (parseTokens others)) ∧
    ∀ (a b : String) (tokens others : List Token), tokenize a = .ok tokens →
      tokenize b = .ok others → tokens.map Token.symbol = others.map Token.symbol →
        (∃ n, parse a = .ok n ∧ parse b = .ok n ∧ run a = run b) ∨
        (∃ e e', AnswerAlike tokens others (.error (.rejected e)) (.error (.rejected e')) ∧
          ∀ env, run a env = .error (.grammatical e) env ∧
            run b env = .error (.grammatical e') env) ∨
        ∃ text, ∀ env, run a env = .error (.unreadable text) env ∧
          run b env = .error (.unreadable text) env := by
  refine ⟨fun tokens others => answerAlike_parseTokens, ?_⟩
  intro a b tokens others ha hb hsymbols
  obtain ⟨before, last, rfl, hlast, -⟩ := lexes_of_tokenize ha
  have halike := answerAlike_parseTokens ⟨last, by simp, hlast⟩ hsymbols
  generalize hpa : parseTokens (before ++ [last]) = answer at halike
  generalize hpb : parseTokens others = answer' at halike
  cases halike with
  | parsed n =>
    have hna := parse_eq_ok_iff_parseTokens.2 ⟨_, ha, hpa⟩
    have hnb := parse_eq_ok_iff_parseTokens.2 ⟨_, hb, hpb⟩
    exact .inl ⟨n, hna, hnb, (run_of_parse hna).trans (run_of_parse hnb).symm⟩
  | rejected j htoken htoken' htext hexpected =>
    refine .inr (.inl ⟨_, _, .rejected j htoken htoken' htext hexpected, fun env => ?_⟩)
    exact ⟨run_of_parse_error (parse_of_parseTokens_error ha hpa) env,
      run_of_parse_error (parse_of_parseTokens_error hb hpb) env⟩
  | unreadable text =>
    refine .inr (.inr ⟨text, fun env => ?_⟩)
    exact ⟨run_of_parse_error (parse_of_parseTokens_error ha hpa) env,
      run_of_parse_error (parse_of_parseTokens_error hb hpb) env⟩

/-- A declaration that is not closed is complained about at the end token, wherever
that is. -/
theorem layout_irrelevant_open_declaration :
    let tokens : List Token := [⟨.letWord, "let", ⟨1, 1⟩⟩, ⟨.ident, "x", ⟨1, 5⟩⟩,
      ⟨.equals, "=", ⟨1, 6⟩⟩, ⟨.ident, "a", ⟨1, 7⟩⟩, ⟨.eof, Token.endText, ⟨1, 8⟩⟩]
    let others : List Token := [⟨.letWord, "let", ⟨1, 1⟩⟩, ⟨.ident, "x", ⟨2, 1⟩⟩,
      ⟨.equals, "=", ⟨2, 3⟩⟩, ⟨.ident, "a", ⟨2, 5⟩⟩, ⟨.eof, Token.endText, ⟨3, 1⟩⟩]
    (∃ x ∈ tokens, x.kind = .eof) ∧ tokens.map Token.symbol = others.map Token.symbol ∧
      tokenize "let x=a" = .ok tokens ∧ tokenize "let\nx = a\n" = .ok others ∧
      AnswerAlike tokens others (parseTokens tokens) (parseTokens others) ∧
      ((∃ n, parse "let x=a" = .ok n ∧ parse "let\nx = a\n" = .ok n ∧
          run "let x=a" = run "let\nx = a\n") ∨
        (∃ e e', AnswerAlike tokens others (.error (.rejected e)) (.error (.rejected e')) ∧
          ∀ env, run "let x=a" env = .error (.grammatical e) env ∧
            run "let\nx = a\n" env = .error (.grammatical e') env) ∨
        ∃ text, ∀ env, run "let x=a" env = .error (.unreadable text) env ∧
          run "let\nx = a\n" env = .error (.unreadable text) env) := by
  intro tokens others
  have hend : ∃ x ∈ tokens, x.kind = .eof := ⟨⟨.eof, Token.endText, ⟨1, 8⟩⟩, by decide, rfl⟩
  have hsymbols : tokens.map Token.symbol = others.map Token.symbol := rfl
  have htokens : tokenize "let x=a" = .ok tokens := by decide +kernel
  have hothers : tokenize "let\nx = a\n" = .ok others := by decide +kernel
  exact ⟨hend, hsymbols, htokens, hothers, layout_irrelevant.1 tokens others hend hsymbols,
    layout_irrelevant.2 _ _ tokens others htokens hothers hsymbols⟩

end Sources

end Scriptlet
