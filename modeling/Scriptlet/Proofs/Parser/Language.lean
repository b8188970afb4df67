import Scriptlet.Proofs.Parser.Completeness
import Scriptlet.Proofs.Parser.Soundness

/-!
# The language of the parser

Parsing a list of tokens that an end token closes succeeds exactly if their
symbols are in the grammar, and then gives the tree that the grammar assigns
to them.
-/

namespace Scriptlet

open Grammar TokenStream

variable {tokens : List Token} {last : Token} {n : Node}

/-- A stream starts with the whole list. -/
theorem TokenStream.tokens_ofTokens (h : tokens ≠ []) : (ofTokens tokens).tokens = tokens := by
  cases tokens with
  | nil => exact absurd rfl h
  | cons token later => rfl

/-- Passing all tokens before the last one leads to the last one. -/
theorem TokenStream.passes_ofTokens (tokens : List Token) (last : Token) :
    (ofTokens (tokens ++ [last])).Passes (tokens.map Token.symbol)
      ⟨tokens.length, last, []⟩ := by
  refine ⟨tokens, tokens_ofTokens (by simp), rfl, ?_⟩
  cases tokens with
  | nil => rfl
  | cons token later => simp [ofTokens]

/-- An end token at the end terminates the stream. -/
theorem TokenStream.terminated_ofTokens (hlast : last.kind = .eof) :
    (ofTokens (tokens ++ [last])).Terminated := by
  refine ⟨last, ?_, hlast⟩
  rw [tokens_ofTokens (by simp)]
  simp

/-- What the grammar derives from tokens is what parsing them gives. -/
theorem parseTokens_of_program (hlast : last.kind = .eof)
    (h : Program (tokens.map Token.symbol) n) : parseTokens (tokens ++ [last]) = .ok n :=
  parseTokens_eq_ok_iff.2 ⟨_, Parser.program_complete h (passes_ofTokens tokens last) hlast⟩

/-- What parsing gives is derived from the tokens before the end token. Parsing ends at
an end token, and there is none before the last token. -/
theorem program_of_parseTokens (htokens : ∀ t ∈ tokens, t.kind ≠ .eof) (hlast : last.kind = .eof)
    (h : parseTokens (tokens ++ [last]) = .ok n) : Program (tokens.map Token.symbol) n := by
  obtain ⟨t, ht⟩ := parseTokens_eq_ok_iff.1 h
  obtain ⟨w, ⟨⟨passed, hpassed, rfl, -⟩, -⟩, hn, hk⟩ :=
    Parser.program_sound (terminated_ofTokens hlast) ht
  rw [tokens_ofTokens (by simp)] at hpassed
  rcases List.append_eq_append_iff.1 hpassed with ⟨more, rfl, hmore⟩ | ⟨left, rfl, hleft⟩
  · cases more with
    | nil => rwa [List.append_nil] at hn
    | cons x more => simp [TokenStream.tokens] at hmore
  · cases left with
    | nil => rwa [List.append_nil]
    | cons x left =>
      have hx : t.current = x := (List.cons.inj hleft).1
      exact absurd (hx ▸ hk) (htokens x (by simp))

/-- Parsing tokens that an end token closes gives a tree exactly if the grammar
derives it from their symbols. -/
theorem parseTokens_eq_ok_iff_program (htokens : ∀ t ∈ tokens, t.kind ≠ .eof)
    (hlast : last.kind = .eof) :
    parseTokens (tokens ++ [last]) = .ok n ↔ Program (tokens.map Token.symbol) n :=
  ⟨program_of_parseTokens htokens hlast, parseTokens_of_program hlast⟩

/-- An object literal may stand before a parenthesis, which is not its argument
list. -/
theorem parseTokens_object_before_group :
    let tokens : List Token :=
      [⟨.lbrace, "\x7b", ⟨1, 1⟩⟩, ⟨.ident, "a", ⟨1, 2⟩⟩, ⟨.rbrace, "\x7d", ⟨1, 3⟩⟩,
        ⟨.lpar, "(", ⟨1, 5⟩⟩, ⟨.ident, "b", ⟨1, 6⟩⟩, ⟨.rpar, ")", ⟨1, 7⟩⟩]
    let last : Token := ⟨.eof, Token.endText, ⟨1, 8⟩⟩
    let n : Node := .program [.object [.shorthand "a"], .identifier "b"]
    (∀ t ∈ tokens, t.kind ≠ .eof) ∧ last.kind = .eof ∧
      parseTokens (tokens ++ [last]) = .ok n ∧ Program (tokens.map Token.symbol) n := by
  intro tokens last n
  have htokens : ∀ t ∈ tokens, t.kind ≠ .eof := by decide
  have hparse : parseTokens (tokens ++ [last]) = .ok n := rfl
  exact ⟨htokens, rfl, hparse, (parseTokens_eq_ok_iff_program htokens rfl).1 hparse⟩

end Scriptlet
