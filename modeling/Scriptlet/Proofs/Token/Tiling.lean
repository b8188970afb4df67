import Mathlib.Data.List.Induction
import Scriptlet.Proofs.Token.Cutting

/-!
# Tiling a source text

The tokens of a source text lie side by side in it, with nothing but
separators before, between and after them. A tile is a token with the
characters that spell it and the separators up to the next one. Each token
says where its tile starts: the lines are counted by the newlines before it,
the columns by the characters since the last of them. Words and numbers are as
long as they can be.
-/

namespace Scriptlet

open Character Lexeme

/-- The place after a text: there is a line for each newline and one more, and a
column for each character since the last newline and one more. -/
def Position.ofText (before : List Char) : Position :=
  ⟨1 + before.count '\n', 1 + (before.reverse.takeWhile (· ≠ '\n')).length⟩

/-- A further character moves the place on. -/
theorem Position.ofText_concat (before : List Char) (c : Char) :
    ofText (before ++ [c]) = (ofText before).next c := by
  by_cases hc : c = '\n'
  · simp [ofText, next, hc, Nat.add_assoc]
  · have hcount : [c].count '\n' = 0 := by simp [hc]
    simp [ofText, next, hc, hcount]
    omega

/-- The place that is reached character by character is the place after the
text. -/
theorem Position.start_after (text : List Char) : start.after text = ofText text := by
  induction text using List.reverseRecOn with
  | nil => rfl
  | append_singleton before c ih =>
    rw [after_append, ih, ofText_concat]
    rfl

/-- A text without newlines stands in the first line. -/
theorem Position.ofText_of_notMem {before : List Char} (h : '\n' ∉ before) :
    ofText before = ⟨1, 1 + before.length⟩ := by
  have hall : ∀ c ∈ before.reverse, decide (c ≠ '\n') = true := by
    intro c hc
    have hmem : c ∈ before := List.mem_reverse.1 hc
    exact decide_eq_true fun he => h (he ▸ hmem)
  have htake : (before.reverse ++ []).takeWhile (· ≠ '\n') = before.reverse :=
    takeWhile_run hall (by simp)
  rw [List.append_nil] at htake
  rw [ofText, htake, List.count_eq_zero_of_not_mem h, List.length_reverse]

/-- Whether a token is spelled by the given characters: by its own text, except
that a string stands between quotes, and that a number may lack the zero before
its point. -/
inductive Token.SpelledAs (token : Token) : List Char → Prop
  | plain : token.kind ≠ .string → SpelledAs token token.text.toList
  | quoted {quote : Char} :
      token.kind = .string → isQuote quote = true → Enclosed quote token.text.toList →
        SpelledAs token (quote :: token.text.toList ++ [quote])
  | pointed {rest : List Char} :
      token.kind = .number → token.text.toList = '0' :: '.' :: rest →
        SpelledAs token ('.' :: rest)

/-- A token with its place in a source text. -/
structure Tile where
  /-- The token. -/
  token : Token
  /-- The characters that spell it. -/
  span : List Char
  /-- What stands between it and the next token. -/
  gap : List Char

namespace Tile

/-- The part of the source text that a tile covers. -/
def text (tile : Tile) : List Char :=
  tile.span ++ tile.gap

/-- The kinds of words. -/
def wordKinds : List Kind :=
  [.ident, .letWord, .constWord, .fnWord]

/-- Whether a tile may stand between two texts. -/
structure Fits (tile : Tile) (before later : List Char) : Prop where
  /-- The token is not the end token. -/
  inner : tile.token.kind ≠ .eof
  /-- The token covers at least one character. -/
  span_ne_nil : tile.span ≠ []
  /-- The token is spelled by its characters. -/
  spelled : tile.token.SpelledAs tile.span
  /-- Only separators come before the next token. -/
  blank : ∀ c ∈ tile.gap, isSeparator c = true
  /-- The token says where it starts. -/
  placed : tile.token.position = .ofText before
  /-- No letter comes after a word. -/
  longestWord : tile.token.kind ∈ wordKinds → ∀ c ∈ (tile.gap ++ later).head?, isLetter c = false
  /-- No digit comes after a number, and a point only if the number has one. -/
  longestNumber : tile.token.kind = .number → ∀ c ∈ (tile.gap ++ later).head?,
    isDigit c = false ∧ (c = '.' → '.' ∈ tile.span)

/-- Whether tiles stand side by side after a text. -/
def Laid (before : List Char) : List Tile → Prop
  | [] => True
  | tile :: rest => tile.Fits before (rest.flatMap text) ∧ Laid (before ++ tile.text) rest

end Tile

/-- Whether a text with the given tokens consists of separators and tiles. -/
structure Tiling (source : List Char) (tokens : List Token) (lead : List Char)
    (tiles : List Tile) : Prop where
  /-- Only separators come before the first token. -/
  blank : ∀ c ∈ lead, isSeparator c = true
  /-- The text is made of the separators and the tiles. -/
  source_eq : source = lead ++ tiles.flatMap Tile.text
  /-- The tiles stand side by side after the separators. -/
  laid : Tile.Laid lead tiles
  /-- The tokens are those of the tiles, and an end token at the end of the
  text. -/
  tokens_eq : tokens = tiles.map Tile.token ++ [⟨.eof, Token.endText, .ofText source⟩]

/-- The token of a well-formed lexeme is spelled by its span. -/
theorem Lexeme.Formed.spelledAs {afterOperand : Bool} {lexeme : Lexeme} {kind : Kind}
    (h : Formed afterOperand lexeme) (hkind : lexeme.kind = some kind) (position : Position) :
    Token.SpelledAs ⟨kind, String.ofList lexeme.text, position⟩ lexeme.span := by
  cases h with
  | blank => simp at hkind
  | @number span hspan =>
    obtain rfl : Kind.number = kind := Option.some.inj hkind
    by_cases hpoint : ∃ rest, span = '.' :: rest
    · obtain ⟨rest, rfl⟩ := hpoint
      exact .pointed rfl (by simp [completeNumber])
    · have hsame : completeNumber span = span := by
        unfold completeNumber
        split
        · rename_i rest
          exact absurd ⟨rest, rfl⟩ hpoint
        · rfl
      have hplain : Token.SpelledAs ⟨.number, String.ofList span, position⟩ _ :=
        .plain (by simp)
      rw [String.toList_ofList] at hplain
      rwa [hsame]
  | @punctuation c mark hmark =>
    obtain rfl : mark = kind := Option.some.inj hkind
    have hne : mark ≠ .string := by
      have hall : ∀ mark ∈ punctuationMarks, mark.2 ≠ Kind.string := by decide
      exact hall (c, mark) (mem_punctuationMarks hmark)
    have hplain : Token.SpelledAs ⟨mark, String.ofList [c], position⟩ _ := .plain hne
    rwa [String.toList_ofList] at hplain
  | @operator c =>
    obtain rfl : Kind.operator = kind := Option.some.inj hkind
    have hplain : Token.SpelledAs ⟨.operator, String.ofList [c], position⟩ _ := .plain (by simp)
    rwa [String.toList_ofList] at hplain
  | @string quote body hquote hbody =>
    obtain rfl : Kind.string = kind := Option.some.inj hkind
    have hquoted : Token.SpelledAs ⟨.string, String.ofList body, position⟩ _ :=
      .quoted rfl hquote (by simpa using hbody)
    rwa [String.toList_ofList] at hquoted
  | @word span =>
    obtain rfl : wordKind span = kind := Option.some.inj hkind
    have hne : wordKind span ≠ .string := by
      rcases wordKind_cases span with h | h | h | h <;> simp [h]
    have hplain : Token.SpelledAs ⟨wordKind span, String.ofList span, position⟩ _ := .plain hne
    rwa [String.toList_ofList] at hplain

/-- A lexeme that has a kind makes a tile with the separators after it. -/
theorem Lexeme.Formed.fits {afterOperand : Bool} {lexeme : Lexeme} {kind : Kind}
    {before gap later : List Char} (h : Formed afterOperand lexeme)
    (hkind : lexeme.kind = some kind) (hspan : lexeme.span ≠ [])
    (hgap : ∀ c ∈ gap, isSeparator c = true)
    (hends : ∀ c ∈ (gap ++ later).head?, continues afterOperand lexeme c = false) :
    Tile.Fits ⟨⟨kind, String.ofList lexeme.text, .ofText before⟩, lexeme.span, gap⟩
      before later where
  inner := by
    have hne := h.kind_ne_eof
    rw [hkind] at hne
    simpa using hne
  span_ne_nil := hspan
  spelled := h.spelledAs hkind _
  blank := hgap
  placed := rfl
  longestWord := by
    intro hword c hc
    have hstop := hends c hc
    simp only [Tile.wordKinds, List.mem_cons, List.not_mem_nil, or_false] at hword
    rcases hword with rfl | rfl | rfl | rfl <;> simpa [continues, hkind] using hstop
  longestNumber := by
    intro hnumber c hc
    have hstop := hends c hc
    obtain rfl : kind = .number := hnumber
    simp only [continues, hkind, Bool.or_eq_false_iff] at hstop
    refine ⟨hstop.1, fun hpoint => ?_⟩
    simpa [hpoint] using hstop.2

/-- The lexemes that a text is cut into are tiles, with each run of separators
in the gap before the next tile. -/
theorem Lexeme.Cuts.exists_laid {afterOperand : Bool} {text : List Char} {lexemes : List Lexeme}
    (h : Cuts afterOperand text lexemes) (before : List Char) :
    ∃ lead tiles, (∀ c ∈ lead, isSeparator c = true) ∧ text = lead ++ tiles.flatMap Tile.text ∧
      Tile.Laid (before ++ lead) tiles ∧
      tokensFrom (.ofText before) lexemes = tiles.map Tile.token := by
  induction h generalizing before with
  | nil => exact ⟨[], [], by simp, rfl, trivial, rfl⟩
  | @cons afterOperand lexeme rest lexemes hnext _ ih =>
    obtain ⟨hformed, tail, htail, hends⟩ := formed_of_next hnext
    obtain rfl := List.append_cancel_left htail
    obtain ⟨lead, tiles, hlead, rfl, hlaid, htokens⟩ := ih (before ++ lexeme.span)
    have hplace : (Position.ofText before).after lexeme.span = .ofText (before ++ lexeme.span) := by
      rw [← Position.start_after, ← Position.start_after, Position.after_append]
    rw [← hplace] at htokens
    cases hkind : lexeme.kind with
    | none =>
      refine ⟨lexeme.span ++ lead, tiles, ?_, ?_, ?_, ?_⟩
      · cases hformed with
        | blank _ hspan =>
          intro c hc
          rcases List.mem_append.1 hc with hc | hc
          · exact hspan c hc
          · exact hlead c hc
        | number | punctuation | operator | string | word => simp [single] at hkind
      · rw [List.append_assoc]
      · rwa [← List.append_assoc]
      · simp [tokensFrom, token?, hkind, htokens]
    | some kind =>
      let tile : Tile := ⟨⟨kind, String.ofList lexeme.text, .ofText before⟩, lexeme.span, lead⟩
      refine ⟨[], tile :: tiles, by simp, ?_, ?_, ?_⟩
      · simp [tile, Tile.text]
      · rw [List.append_nil]
        refine ⟨hformed.fits hkind (span_ne_nil hnext) hlead hends, ?_⟩
        rwa [Tile.text, ← List.append_assoc]
      · simp [tokensFrom, token?, hkind, htokens, tile]

/-- A text that is cut into lexemes consists of separators and tiles. -/
theorem Lexeme.Cuts.exists_tiling {text : List Char} {lexemes : List Lexeme}
    (h : Cuts false text lexemes) :
    ∃ lead tiles, Tiling text
      (tokensFrom .start lexemes ++ [⟨.eof, Token.endText, Position.start.after text⟩])
      lead tiles := by
  obtain ⟨lead, tiles, hlead, htext, hlaid, htokens⟩ := h.exists_laid []
  refine ⟨lead, tiles, hlead, htext, hlaid, ?_⟩
  rw [Position.start_after, ← htokens]
  rfl

/-- The tokens of a text tile it. -/
theorem tokenize_tiling {source : String} {tokens : List Token}
    (h : tokenize source = .ok tokens) :
    ∃ lead tiles, Tiling source.toList tokens lead tiles := by
  obtain ⟨lexemes, hcuts, rfl⟩ := tokenize_eq_ok_iff.1 h
  exact hcuts.exists_tiling

/-- A number without a zero before its point, and a string with a quote in it,
on a second line. -/
theorem tokenize_tiling_second_line :
    let source := "=\n.5'\\''"
    let tokens : List Token :=
      [⟨.equals, "=", ⟨1, 1⟩⟩, ⟨.number, "0.5", ⟨2, 1⟩⟩, ⟨.string, "\\'", ⟨2, 3⟩⟩,
        ⟨.eof, Token.endText, ⟨2, 7⟩⟩]
    tokenize source = .ok tokens ∧ ∃ lead tiles, Tiling source.toList tokens lead tiles := by
  intro source tokens
  have htokens : tokenize source = .ok tokens := by decide +kernel
  exact ⟨htokens, tokenize_tiling htokens⟩

end Scriptlet
