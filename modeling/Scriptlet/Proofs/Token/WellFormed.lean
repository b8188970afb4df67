import Scriptlet.Proofs.Token.Numeral
import Scriptlet.Proofs.Token.Written

/-!
# Well-formed symbols

A symbol is well-formed if its text fits its kind. Well-formed symbols can be
written with separators between them, each string in any quotes that it can
stand between, and tokenizing what was written gives the symbols back. Every
token of a source text but the last one, which is the end token, has a
well-formed symbol. So the well-formed sequences of symbols are those that
tokenizing gives.
-/

namespace Scriptlet

open Character Lexeme

/-- Whether the text of a symbol fits its kind: a mark or a keyword has its only
spelling, a name is a word that is no keyword, a number has digits before a
point, if it has one, and a string can stand between two quotes. -/
inductive Symbol.WellFormed : Symbol → Prop
  | fixed {kind : Kind} : ¬ kind.spelling = "" → WellFormed kind.symbol
  | operator {operator : String} :
      operator ∈ sumOperators ++ productOperators → WellFormed (.ofOperator operator)
  | name {name : String} : IsName name → WellFormed (.ofName name)
  | whole {digits : List Char} :
      digits ≠ [] → (∀ c ∈ digits, isDigit c = true) →
        WellFormed ⟨.number, String.ofList digits⟩
  | point {whole fraction : List Char} :
      whole ≠ [] → (∀ c ∈ whole, isDigit c = true) → (∀ c ∈ fraction, isDigit c = true) →
        WellFormed ⟨.number, String.ofList (whole ++ '.' :: fraction)⟩
  | string {text : String} {quote : Char} :
      isQuote quote = true → Enclosed quote text.toList → WellFormed ⟨.string, text⟩

/-- A symbol as it is written. -/
structure Piece where
  /-- The symbol. -/
  symbol : Symbol
  /-- The quote that is put around a string. -/
  quote : Char
  /-- What is put between the symbol and the next one. -/
  gap : List Char

namespace Piece

/-- How the symbol is written: a string between its quotes, any other one as its
text. -/
def span (piece : Piece) : List Char :=
  if piece.symbol.kind = .string then piece.quote :: piece.symbol.text.toList ++ [piece.quote]
  else piece.symbol.text.toList

/-- The symbol as it is written, and what is put after it. -/
def text (piece : Piece) : List Char :=
  piece.span ++ piece.gap

/-- Whether a symbol may be written in this way. -/
structure Valid (piece : Piece) : Prop where
  /-- The symbol is well-formed. -/
  wellFormed : piece.symbol.WellFormed
  /-- A string can stand between the quotes. -/
  enclosed : piece.symbol.kind = .string →
    isQuote piece.quote = true ∧ Enclosed piece.quote piece.symbol.text.toList
  /-- Only separators are put after the symbol. -/
  blank : ∀ c ∈ piece.gap, isSeparator c = true

end Piece

/-- Whether symbols may be written in this way, with separators before the first
one. There is a separator between any two symbols. -/
structure Piece.Written (lead : List Char) (pieces : List Piece) : Prop where
  /-- Only separators are put before the first symbol. -/
  blank : ∀ c ∈ lead, isSeparator c = true
  /-- Each symbol may be written in this way. -/
  valid : ∀ piece ∈ pieces, piece.Valid
  /-- Something is put between any two symbols. -/
  apart : ∀ piece ∈ pieces.dropLast, piece.gap ≠ []

/-- A numeral that is complete is spelled by itself. -/
theorem spelledBy_numeral {afterOperand : Bool} {digits : List Char}
    (h : Numeral afterOperand digits) (hcomplete : completeNumber digits = digits) :
    Symbol.SpelledBy afterOperand ⟨.number, String.ofList digits⟩ digits := by
  refine ⟨_, .number h, ?_, rfl⟩
  rw [symbol?, hcomplete]
  rfl

/-- A well-formed symbol that is no string is spelled by its text, in every
place. -/
theorem Symbol.WellFormed.spelledBy {x : Symbol} (h : x.WellFormed) (hkind : x.kind ≠ .string)
    (afterOperand : Bool) : x.SpelledBy afterOperand x.text.toList := by
  cases h with
  | fixed hne => exact Kind.spelledBy _ hne afterOperand
  | operator ho => exact spelledBy_ofOperator ho afterOperand
  | name hname => exact hname.spelledBy afterOperand
  | @whole digits hne hdigits =>
    have hcomplete : completeNumber digits = digits := by
      obtain ⟨c, rest, rfl⟩ := List.exists_cons_of_ne_nil hne
      exact completeNumber_of_isDigit (hdigits c (by simp))
    rw [String.toList_ofList]
    exact spelledBy_numeral (.whole hne hdigits) hcomplete
  | @point whole fraction hne hwhole hfraction =>
    have hcomplete : completeNumber (whole ++ '.' :: fraction) = whole ++ '.' :: fraction := by
      obtain ⟨c, rest, rfl⟩ := List.exists_cons_of_ne_nil hne
      exact completeNumber_of_isDigit (hwhole c (by simp))
    rw [String.toList_ofList]
    exact spelledBy_numeral (.point hwhole hfraction (.inl hne)) hcomplete
  | string => exact absurd rfl hkind

/-- A valid piece is spelled by its span, in every place. -/
theorem Piece.Valid.spelledBy {piece : Piece} (h : piece.Valid) (afterOperand : Bool) :
    piece.symbol.SpelledBy afterOperand piece.span := by
  by_cases hkind : piece.symbol.kind = .string
  · obtain ⟨hquote, hbody⟩ := h.enclosed hkind
    rw [Piece.span, if_pos hkind]
    refine ⟨_, .string hquote hbody, ?_, rfl⟩
    rw [symbol?, ← hkind, String.ofList_toList]
    rfl
  · rw [Piece.span, if_neg hkind]
    exact h.wellFormed.spelledBy hkind afterOperand

/-- Separators before written symbols may be written, too. -/
theorem Spaced.separators {afterOperand : Bool} {w : List Symbol} {gap text : List Char}
    (hgap : ∀ c ∈ gap, isSeparator c = true) (h : Spaced afterOperand w text) :
    Spaced afterOperand w (gap ++ text) := by
  induction gap with
  | nil => exact h
  | cons c gap ih =>
    have hc := hgap c (by simp)
    exact .separator hc (ih fun d hd => hgap d (by simp [hd]))

/-- Symbols that are written as pieces are written with separators between them: what
follows a symbol is a separator of the gap, or nothing at all. -/
theorem Piece.spaced {pieces : List Piece} (hvalid : ∀ piece ∈ pieces, piece.Valid)
    (hapart : ∀ piece ∈ pieces.dropLast, piece.gap ≠ []) (afterOperand : Bool) :
    Spaced afterOperand (pieces.map Piece.symbol) (pieces.flatMap Piece.text) := by
  induction pieces generalizing afterOperand with
  | nil => exact .nil
  | cons piece rest ih =>
    have hpiece := hvalid piece (by simp)
    have hrest : ∀ p ∈ rest, p.Valid := fun p hp => hvalid p (by simp [hp])
    have hapart' : ∀ p ∈ rest.dropLast, p.gap ≠ [] := by
      intro p hp
      refine hapart p ?_
      cases rest with
      | nil => simp at hp
      | cons q rest => exact List.mem_cons_of_mem piece hp
    have hhead : ∀ c ∈ (piece.gap ++ rest.flatMap Piece.text).head?, isSeparator c = true := by
      intro c hc
      cases hgap : piece.gap with
      | cons d gap =>
        obtain rfl : d = c := by simpa [hgap] using hc
        exact hpiece.blank d (by simp [hgap])
      | nil =>
        cases rest with
        | nil => simp [hgap] at hc
        | cons q rest => exact absurd hgap (hapart piece (by simp))
    rw [List.map_cons, List.flatMap_cons, Piece.text, List.append_assoc]
    exact .symbol (hpiece.spelledBy afterOperand) hhead
      (.separators hpiece.blank (ih hrest hapart' _))

/-- Well-formed symbols can be written. -/
theorem exists_written {w : List Symbol} (hw : ∀ x ∈ w, x.WellFormed) :
    ∃ pieces, pieces.map Piece.symbol = w ∧ Piece.Written [] pieces := by
  have hspace : isSeparator ' ' = true := by decide
  have hblank : ∀ c ∈ [' '], isSeparator c = true := by simp [hspace]
  have hpiece : ∀ x ∈ w, ∃ quote, Piece.Valid ⟨x, quote, [' ']⟩ := by
    intro x hx
    by_cases hkind : x.kind = .string
    · obtain ⟨quote, henclosed⟩ : ∃ quote, isQuote quote = true ∧ Enclosed quote x.text.toList := by
        cases hw x hx with
        | string hquote hbody => exact ⟨_, hquote, hbody⟩
        | @fixed kind hne =>
          obtain rfl : kind = .string := hkind
          exact absurd rfl hne
        | operator | name | whole | point => cases hkind
      exact ⟨quote, hw x hx, fun _ => henclosed, hblank⟩
    · exact ⟨' ', hw x hx, fun h => absurd h hkind, hblank⟩
  induction w with
  | nil => exact ⟨[], rfl, by simp, by simp, by simp⟩
  | cons x w ih =>
    obtain ⟨quote, hvalid⟩ := hpiece x (by simp)
    obtain ⟨pieces, rfl, hwritten⟩ := ih (fun y hy => hw y (by simp [hy]))
      fun y hy => hpiece y (by simp [hy])
    refine ⟨⟨x, quote, [' ']⟩ :: pieces, rfl, by simp, ?_, ?_⟩
    · intro piece hmem
      rcases List.mem_cons.1 hmem with rfl | hmem
      · exact hvalid
      · exact hwritten.valid piece hmem
    · intro piece hmem
      cases pieces with
      | nil => simp at hmem
      | cons next pieces =>
        rcases List.mem_cons.1 hmem with rfl | hmem
        · simp
        · exact hwritten.apart piece hmem

/-- The symbol of a word is a keyword or a name. -/
theorem wellFormed_word {span : List Char} (hne : span ≠ [])
    (hletters : ∀ c ∈ span, isLetter c = true) :
    Symbol.WellFormed ⟨wordKind span, String.ofList span⟩ := by
  by_cases hkeyword : span = ['l', 'e', 't'] ∨ span = ['c', 'o', 'n', 's', 't'] ∨ span = ['f', 'n']
  · rcases hkeyword with rfl | rfl | rfl
    · exact @Symbol.WellFormed.fixed .letWord (by decide)
    · exact @Symbol.WellFormed.fixed .constWord (by decide)
    · exact @Symbol.WellFormed.fixed .fnWord (by decide)
  · simp only [not_or] at hkeyword
    obtain ⟨hlet, hconst, hfn⟩ := hkeyword
    have hkind : wordKind span = .ident := by simp [wordKind, hlet, hconst, hfn]
    rw [hkind]
    refine .name ⟨by simpa using hne, by simpa using hletters, ?_, ?_, ?_⟩
    · exact fun h => hlet (by simpa using congrArg String.toList h)
    · exact fun h => hconst (by simpa using congrArg String.toList h)
    · exact fun h => hfn (by simpa using congrArg String.toList h)

/-- The symbol of a punctuation mark is its own spelling. -/
theorem wellFormed_punctuation {c : Char} {kind : Kind} (h : punctuation? c = some kind) :
    Symbol.WellFormed ⟨kind, String.ofList [c]⟩ := by
  have hall : ∀ mark ∈ punctuationMarks, ¬ mark.2.spelling = "" ∧
      mark.2.symbol = ⟨mark.2, String.ofList [mark.1]⟩ := by decide
  obtain ⟨hne, hsymbol⟩ := hall (c, kind) (mem_punctuationMarks h)
  exact hsymbol ▸ .fixed hne

/-- The symbol of a numeral is complete: where an operand has just ended, no point leads
a numeral. -/
theorem wellFormed_numeral {afterOperand : Bool} {span : List Char}
    (h : Numeral afterOperand span) :
    Symbol.WellFormed ⟨.number, String.ofList (completeNumber span)⟩ := by
  rcases h.cases with ⟨hcomplete, hnumeral⟩ | ⟨fraction, rfl, -, hfraction⟩
  · rw [hcomplete]
    cases hnumeral true with
    | whole hne hdigits => exact .whole hne hdigits
    | point hwhole hfraction hlead => exact .point (by simpa using hlead) hwhole hfraction
  · have hzero : isDigit '0' = true := by decide
    exact @Symbol.WellFormed.point ['0'] fraction (by simp) (by simp [hzero]) hfraction

/-- A well-formed lexeme has a well-formed symbol. -/
theorem Lexeme.Formed.wellFormed {afterOperand : Bool} {lexeme : Lexeme} {x : Symbol}
    (h : Formed afterOperand lexeme) (hx : lexeme.symbol? = some x) : x.WellFormed := by
  cases h with
  | blank => simp [symbol?] at hx
  | number hspan =>
    obtain rfl := Option.some.inj hx
    exact wellFormed_numeral hspan
  | punctuation hkind =>
    obtain rfl := Option.some.inj hx
    exact wellFormed_punctuation hkind
  | @operator c hoperator =>
    obtain rfl := Option.some.inj hx
    refine .operator ?_
    simp only [isOperator, Bool.or_eq_true, beq_iff_eq] at hoperator
    rcases hoperator with (((rfl | rfl) | rfl) | rfl) | rfl <;> decide
  | string hquote hbody =>
    obtain rfl := Option.some.inj hx
    exact .string hquote (by simpa using hbody)
  | word hne hletters =>
    obtain rfl := Option.some.inj hx
    exact wellFormed_word hne hletters

/-- The symbols that a text spells are well-formed. -/
theorem Lexes.wellFormed {afterOperand : Bool} {text : List Char} {w : List Symbol}
    (h : Lexes afterOperand text w) : ∀ x ∈ w, x.WellFormed := by
  obtain ⟨lexemes, hcuts, rfl⟩ := h
  intro x hx
  obtain ⟨lexeme, hlexeme, hsymbol⟩ := List.mem_filterMap.1 hx
  obtain ⟨before, hformed⟩ := hcuts.formed.2 lexeme hlexeme
  exact hformed.wellFormed hsymbol

/-- Well-formed symbols can be written, and however they are written, tokenizing
gives them back, followed by the end token; and tokenizing a source text gives
only tokens with well-formed symbols, followed by the end token. -/
theorem tokenize_wellFormed :
    (∀ w : List Symbol, (∀ x ∈ w, x.WellFormed) →
      ∃ pieces, pieces.map Piece.symbol = w ∧ Piece.Written [] pieces) ∧
    (∀ lead pieces, Piece.Written lead pieces → ∃ tokens position,
      tokenize (String.ofList (lead ++ pieces.flatMap Piece.text)) =
          .ok (tokens ++ [⟨.eof, Token.endText, position⟩]) ∧
        tokens.map Token.symbol = pieces.map Piece.symbol) ∧
    ∀ source tokens, tokenize source = .ok tokens → ∃ before position,
      tokens = before ++ [⟨.eof, Token.endText, position⟩] ∧ ∀ t ∈ before, t.symbol.WellFormed := by
  refine ⟨fun w hw => exists_written hw, fun lead pieces hwritten => ?_, fun source tokens h => ?_⟩
  · have hspaced := (Piece.spaced hwritten.valid hwritten.apart false).separators hwritten.blank
    obtain ⟨lexemes, hcuts, hsymbols⟩ := hspaced.lexes
    refine ⟨_, _, tokenize_eq_ok_iff.2 ⟨lexemes, ?_, rfl⟩, ?_⟩
    · rwa [String.toList_ofList]
    · rw [map_symbol_tokensFrom, hsymbols]
  · obtain ⟨lexemes, hcuts, rfl⟩ := tokenize_eq_ok_iff.1 h
    refine ⟨_, _, rfl, fun t ht => ?_⟩
    have hlexes : Lexes false source.toList ((tokensFrom .start lexemes).map Token.symbol) :=
      ⟨lexemes, hcuts, (map_symbol_tokensFrom _ lexemes).symm⟩
    exact hlexes.wellFormed t.symbol (List.mem_map_of_mem ht)

/-- A point before a number that ends with one, and a string that holds a quote,
with single separators and none at the ends. -/
theorem tokenize_wellFormed_point_before_number :
    let pieces : List Piece :=
      [⟨⟨.dot, "."⟩, ' ', [' ']⟩, ⟨⟨.number, "5."⟩, ' ', ['\n']⟩,
        ⟨⟨.string, "'"⟩, Text.doubleQuote, []⟩]
    Piece.Written [] pieces ∧ (∃ tokens position,
      tokenize (String.ofList ([] ++ pieces.flatMap Piece.text)) =
          .ok (tokens ++ [⟨.eof, Token.endText, position⟩]) ∧
        tokens.map Token.symbol = pieces.map Piece.symbol) := by
  intro pieces
  have hspace : isSeparator ' ' = true := by decide
  have hnewline : isSeparator '\n' = true := by decide
  have hdigit : isDigit '5' = true := by decide
  have hpoint : Piece.Valid ⟨⟨.dot, "."⟩, ' ', [' ']⟩ :=
    ⟨@Symbol.WellFormed.fixed .dot (by decide), by simp, by simp [hspace]⟩
  have hnumber : Piece.Valid ⟨⟨.number, "5."⟩, ' ', ['\n']⟩ :=
    ⟨@Symbol.WellFormed.point ['5'] [] (by simp) (by simp [hdigit]) (by simp), by simp,
      by simp [hnewline]⟩
  have hquote : isQuote Text.doubleQuote = true := by decide
  have henclosed : Enclosed Text.doubleQuote "'".toList := .plain (by decide) (by decide) .nil
  have hstring : Piece.Valid ⟨⟨.string, "'"⟩, Text.doubleQuote, []⟩ :=
    ⟨.string hquote henclosed, fun _ => ⟨hquote, henclosed⟩, by simp⟩
  have hwritten : Piece.Written [] pieces := by
    refine ⟨by simp, ?_, ?_⟩
    · intro piece hpiece
      simp only [pieces, List.mem_cons, List.not_mem_nil, or_false] at hpiece
      rcases hpiece with rfl | rfl | rfl
      · exact hpoint
      · exact hnumber
      · exact hstring
    · simp [pieces]
  exact ⟨hwritten, tokenize_wellFormed.2.1 [] pieces hwritten⟩

end Scriptlet
