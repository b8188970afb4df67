import Scriptlet.Proofs.Parser.Language
import Scriptlet.Proofs.Token.Cutting
import Scriptlet.Script

/-!
# The language of source texts

A source text is a program exactly if it spells symbols from which the grammar
derives the program.
-/

namespace Scriptlet

variable {source : String} {n : Node}

/-- Parsing a text is parsing its tokens. -/
theorem parse_eq_ok_iff_parseTokens :
    parse source = .ok n ↔ ∃ tokens, tokenize source = .ok tokens ∧ parseTokens tokens = .ok n := by
  unfold parse
  cases tokenize source with
  | error e => simp
  | ok tokens =>
    simp only [Except.ok.injEq, exists_eq_left']
    cases parseTokens tokens with
    | error failure => simp
    | ok node => simp

/-- A text that spells the symbols of a program is parsed as it. -/
theorem Lexes.parse {w : List Symbol} (hw : Lexes false source.toList w)
    (hn : Grammar.Program w n) : parse source = .ok n := by
  obtain ⟨tokens, last, htokens, hlast, rfl⟩ := hw.tokenize
  exact parse_eq_ok_iff_parseTokens.2 ⟨_, htokens, parseTokens_of_program hlast hn⟩

/-- The tokens of a text that is parsed are spelled by it, and derive what it is
parsed as. -/
theorem lexes_of_parse {tokens : List Token} {last : Token} (h : parse source = .ok n)
    (htokens : tokenize source = .ok (tokens ++ [last])) :
    Lexes false source.toList (tokens.map Token.symbol) ∧
      Grammar.Program (tokens.map Token.symbol) n := by
  obtain ⟨all, hall, hn⟩ := parse_eq_ok_iff_parseTokens.1 h
  obtain rfl := Except.ok.inj (htokens.symm.trans hall)
  obtain ⟨before, last', heq, hlast, hbefore, hlexes⟩ := lexes_of_tokenize htokens
  obtain ⟨rfl, hlast'⟩ := List.append_inj' heq rfl
  obtain rfl : last = last' := by simpa using hlast'
  exact ⟨hlexes, program_of_parseTokens hbefore hlast hn⟩

/-- A text is parsed as a program exactly if it spells symbols from which the
grammar derives the program. -/
theorem parse_eq_ok_iff :
    parse source = .ok n ↔ ∃ w, Lexes false source.toList w ∧ Grammar.Program w n := by
  constructor
  · intro h
    obtain ⟨tokens, htokens, -⟩ := parse_eq_ok_iff_parseTokens.1 h
    obtain ⟨before, last, rfl, -⟩ := lexes_of_tokenize htokens
    exact ⟨_, lexes_of_parse h htokens⟩
  · rintro ⟨w, hw, hn⟩
    exact hw.parse hn

end Scriptlet
