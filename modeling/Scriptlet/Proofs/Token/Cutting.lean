import Scriptlet.Proofs.Token.Formed
import Scriptlet.Proofs.Token.Symbol
import Scriptlet.Token.Scanner

/-!
# Cutting a source text

Scanning a source text cuts it into lexemes, each of which is the next one
where it starts. The tokens are the lexemes that have a kind, with the places
where they start, and the end token. Which lexemes a text is cut into does
not depend on places, so two texts can be compared by their symbols.
-/

namespace Scriptlet

namespace Lexeme

/-- Whether an operand has just ended after a lexeme; a run of separators does
not change this. -/
def leaves (afterOperand : Bool) (lexeme : Lexeme) : Bool :=
  match lexeme.kind with
  | some kind => kind.endsOperand
  | none => afterOperand

/-- The symbol of a lexeme. -/
def symbol? (lexeme : Lexeme) : Option Symbol :=
  lexeme.kind.map fun kind => ⟨kind, String.ofList lexeme.text⟩

/-- The token of a lexeme that starts at a given place. -/
def token? (position : Position) (lexeme : Lexeme) : Option Token :=
  lexeme.kind.map fun kind => ⟨kind, String.ofList lexeme.text, position⟩

/-- Whether a text is cut into the given lexemes. -/
inductive Cuts : Bool → List Char → List Lexeme → Prop
  | nil {afterOperand : Bool} : Cuts afterOperand [] []
  | cons {afterOperand : Bool} {lexeme : Lexeme} {rest : List Char} {lexemes : List Lexeme} :
      next afterOperand (lexeme.span ++ rest) = .ok lexeme →
        Cuts (lexeme.leaves afterOperand) rest lexemes →
          Cuts afterOperand (lexeme.span ++ rest) (lexeme :: lexemes)

/-- The tokens of lexemes, the first of which starts at a given place. -/
def tokensFrom (position : Position) : List Lexeme → List Token
  | [] => []
  | lexeme :: rest =>
    (lexeme.token? position).toList ++ tokensFrom (position.after lexeme.span) rest

/-- The symbols of the tokens are those of the lexemes. -/
theorem map_symbol_tokensFrom (position : Position) (lexemes : List Lexeme) :
    (tokensFrom position lexemes).map Token.symbol = lexemes.filterMap symbol? := by
  induction lexemes generalizing position with
  | nil => rfl
  | cons lexeme rest ih =>
    rw [tokensFrom, List.map_append, ih]
    cases hk : lexeme.kind with
    | none => simp [token?, symbol?, hk]
    | some kind => simp [token?, symbol?, hk, Token.symbol]

/-- The empty text has no lexemes. -/
theorem cuts_nil_iff {afterOperand : Bool} {lexemes : List Lexeme} :
    Cuts afterOperand [] lexemes ↔ lexemes = [] := by
  constructor
  · intro h
    generalize htext : [] = text at h
    cases h with
    | nil => rfl
    | cons hnext _ => exact absurd (List.append_eq_nil_iff.1 htext.symm).1 (span_ne_nil hnext)
  · rintro rfl
    exact .nil

/-- The first lexeme of a text is the next one. -/
theorem cuts_iff_of_next {afterOperand : Bool} {text : List Char} {lexeme : Lexeme}
    {lexemes : List Lexeme} (h : next afterOperand text = .ok lexeme) :
    Cuts afterOperand text lexemes ↔ ∃ rest later, text = lexeme.span ++ rest ∧
      lexemes = lexeme :: later ∧ Cuts (lexeme.leaves afterOperand) rest later := by
  constructor
  · intro hcuts
    cases hcuts with
    | nil => simp [next] at h
    | cons hnext hrest =>
      obtain rfl := Except.ok.inj (hnext.symm.trans h)
      exact ⟨_, _, rfl, rfl, hrest⟩
  · rintro ⟨rest, later, rfl, rfl, hrest⟩
    exact .cons h hrest

/-- No lexeme is an end token. -/
theorem Formed.kind_ne_eof {afterOperand : Bool} {lexeme : Lexeme}
    (h : Formed afterOperand lexeme) : lexeme.kind ≠ some .eof := by
  cases h with
  | blank => simp
  | number => simp
  | @punctuation c kind hkind =>
    have hall : ∀ mark ∈ punctuationMarks, some mark.2 ≠ some Kind.eof := by decide
    exact hall (c, kind) (mem_punctuationMarks hkind)
  | operator => simp [single]
  | string => simp
  | @word span => rcases wordKind_cases span with h | h | h | h <;> simp [h]

/-- A text consists of the spans of its lexemes, which are well-formed. -/
theorem Cuts.formed {afterOperand : Bool} {text : List Char} {lexemes : List Lexeme}
    (h : Cuts afterOperand text lexemes) :
    text = lexemes.flatMap span ∧ ∀ lexeme ∈ lexemes, ∃ before, Formed before lexeme := by
  induction h with
  | nil => simp
  | @cons afterOperand lexeme rest lexemes hnext _ ih =>
    refine ⟨by rw [List.flatMap_cons, ← ih.1], fun other hother => ?_⟩
    rcases List.mem_cons.1 hother with rfl | hother
    · exact ⟨_, (formed_of_next hnext).1⟩
    · exact ih.2 other hother

/-- A token comes from a lexeme with its symbol. -/
theorem exists_mem_of_mem_tokensFrom {position : Position} {lexemes : List Lexeme} {t : Token}
    (h : t ∈ tokensFrom position lexemes) :
    ∃ lexeme ∈ lexemes, lexeme.symbol? = some t.symbol := by
  have hmem : t.symbol ∈ (tokensFrom position lexemes).map Token.symbol :=
    List.mem_map_of_mem h
  rw [map_symbol_tokensFrom] at hmem
  exact List.mem_filterMap.1 hmem

end Lexeme

namespace Scanner

open Lexeme

/-- Taking a lexeme passes its span and adds its token. -/
theorem take_eq {s : Scanner} {lexeme : Lexeme} {rest : List Char}
    (h : s.rest = lexeme.span ++ rest) :
    s.take lexeme = ⟨rest, s.offset + lexeme.span.length, s.position.after lexeme.span,
      (lexeme.token? s.position).toList ++ s.found⟩ := by
  unfold take
  cases hk : lexeme.kind with
  | none => simp [skip, token?, hk, h]
  | some kind => simp [skip, emit, token?, hk, h]

/-- Whether an operand has just ended is settled by the lexeme taken. -/
theorem afterOperand_take (s : Scanner) (lexeme : Lexeme) :
    (s.take lexeme).afterOperand = lexeme.leaves s.afterOperand := by
  unfold take leaves
  cases lexeme.kind with
  | none => rfl
  | some kind => rfl

/-- Scanning succeeds where there is a next lexeme. -/
theorem scan_eq_ok_iff {s t : Scanner} :
    s.scan = .ok () t ↔ ∃ lexeme, next s.afterOperand s.rest = .ok lexeme ∧ t = s.take lexeme := by
  unfold scan settle
  cases hnext : next s.afterOperand s.rest with
  | ok lexeme => simp [eq_comm]
  | error obstacle => cases obstacle <;> simp

/-- Scanning to the end succeeds if the text can be cut, and adds the tokens of
its lexemes and the end token. -/
theorem scanAll_eq_ok_iff {s t : Scanner} :
    s.scanAll = .ok () t ↔ ∃ lexemes, Cuts s.afterOperand s.rest lexemes ∧
      t = ⟨[], s.offset + s.rest.length, s.position.after s.rest,
        ⟨.eof, Token.endText, s.position.after s.rest⟩ ::
          ((tokensFrom s.position lexemes).reverse ++ s.found)⟩ := by
  fun_induction scanAll s with
  | case1 s hrest =>
    simp only [hrest, cuts_nil_iff, exists_eq_left]
    simp [emit, hrest, tokensFrom, String.ofList_toList, eq_comm]
  | case2 s hrest u hscan ih =>
    obtain ⟨lexeme, hnext, rfl⟩ := scan_eq_ok_iff.1 hscan
    obtain ⟨rest, htext⟩ := span_isPrefixOf hnext
    rw [ih, afterOperand_take, take_eq htext.symm]
    simp only [cuts_iff_of_next hnext]
    rw [← htext]
    constructor
    · rintro ⟨lexemes, hcuts, rfl⟩
      refine ⟨_, ⟨rest, lexemes, rfl, rfl, hcuts⟩, ?_⟩
      cases hk : lexeme.kind with
      | none => simp [tokensFrom, token?, hk, Nat.add_assoc]
      | some kind => simp [tokensFrom, token?, hk, Nat.add_assoc]
    · rintro ⟨_, ⟨rest', lexemes, hrest', rfl, hcuts⟩, rfl⟩
      obtain rfl := List.append_cancel_left hrest'
      refine ⟨lexemes, hcuts, ?_⟩
      cases hk : lexeme.kind with
      | none => simp [tokensFrom, token?, hk, Nat.add_assoc]
      | some kind => simp [tokensFrom, token?, hk, Nat.add_assoc]
  | case3 s hrest e u hscan =>
    constructor
    · intro h
      cases h
    · rintro ⟨lexemes, hcuts, -⟩
      generalize htext : s.rest = text at hcuts
      cases hcuts with
      | nil => exact absurd htext hrest
      | cons hnext _ =>
        rw [← htext] at hnext
        rw [scan_eq_ok_iff.2 ⟨_, hnext, rfl⟩] at hscan
        cases hscan

end Scanner

open Lexeme

/-- The tokens of a text are those that scanning it to the end finds. -/
theorem tokenize_eq_ok_iff_scanAll {source : String} {tokens : List Token} :
    tokenize source = .ok tokens ↔
      ∃ s, (Scanner.ofSource source).scanAll = .ok () s ∧ tokens = s.tokens := by
  unfold tokenize
  cases (Scanner.ofSource source).scanAll with
  | error e s => simp
  | ok u s => simp [eq_comm]

/-- The tokens of a text are those of the lexemes that it is cut into, and the
end token. -/
theorem tokenize_eq_ok_iff {source : String} {tokens : List Token} :
    tokenize source = .ok tokens ↔ ∃ lexemes, Cuts false source.toList lexemes ∧
      tokens = tokensFrom .start lexemes ++
        [⟨.eof, Token.endText, Position.start.after source.toList⟩] := by
  rw [tokenize_eq_ok_iff_scanAll]
  constructor
  · rintro ⟨s, hscan, rfl⟩
    obtain ⟨lexemes, hcuts, rfl⟩ := Scanner.scanAll_eq_ok_iff.1 hscan
    exact ⟨lexemes, hcuts, by simp [Scanner.tokens, Scanner.ofSource]⟩
  · rintro ⟨lexemes, hcuts, rfl⟩
    refine ⟨_, Scanner.scanAll_eq_ok_iff.2 ⟨lexemes, hcuts, rfl⟩, ?_⟩
    simp [Scanner.tokens, Scanner.ofSource]

/-- No token of a lexeme is an end token. -/
theorem Lexeme.Cuts.kind_ne_eof {afterOperand : Bool} {text : List Char} {lexemes : List Lexeme}
    (h : Cuts afterOperand text lexemes) (position : Position) :
    ∀ t ∈ tokensFrom position lexemes, t.kind ≠ .eof := by
  intro t ht heof
  obtain ⟨lexeme, hlexeme, hsymbol⟩ := exists_mem_of_mem_tokensFrom ht
  obtain ⟨before, hformed⟩ := h.formed.2 lexeme hlexeme
  obtain ⟨kind, hkind, hsame⟩ := Option.map_eq_some_iff.1 hsymbol
  obtain rfl : kind = .eof := (congrArg Symbol.kind hsame).trans heof
  exact hformed.kind_ne_eof hkind

/-- Whether a text spells a sequence of symbols, in a place after an operand or
not. -/
def Lexes (afterOperand : Bool) (text : List Char) (w : List Symbol) : Prop :=
  ∃ lexemes, Cuts afterOperand text lexemes ∧ lexemes.filterMap symbol? = w

/-- Tokens come from a text that spells their symbols, and only the last one is
an end token. -/
theorem lexes_of_tokenize {source : String} {tokens : List Token}
    (h : tokenize source = .ok tokens) :
    ∃ before last, tokens = before ++ [last] ∧ last.kind = .eof ∧
      (∀ t ∈ before, t.kind ≠ .eof) ∧ Lexes false source.toList (before.map Token.symbol) := by
  obtain ⟨lexemes, hcuts, rfl⟩ := tokenize_eq_ok_iff.1 h
  exact ⟨_, _, rfl, rfl, hcuts.kind_ne_eof _, lexemes, hcuts,
    (map_symbol_tokensFrom _ lexemes).symm⟩

/-- A text that spells symbols has tokens for them, and an end token. -/
theorem Lexes.tokenize {source : String} {w : List Symbol} (h : Lexes false source.toList w) :
    ∃ before last, tokenize source = .ok (before ++ [last]) ∧ last.kind = .eof ∧
      before.map Token.symbol = w := by
  obtain ⟨lexemes, hcuts, rfl⟩ := h
  exact ⟨_, _, tokenize_eq_ok_iff.2 ⟨lexemes, hcuts, rfl⟩, rfl, map_symbol_tokensFrom _ lexemes⟩

end Scriptlet
