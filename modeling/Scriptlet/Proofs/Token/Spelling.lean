import Scriptlet.Proofs.Token.Cutting

/-!
# Spelled symbols

A text spells a sequence of symbols if the lexemes that it is cut into have
these symbols. Symbols that are written with separators between them are
spelled by what is written, however many separators there are. A text whose
last symbol is a semicolon can be followed by any other text.
-/

namespace Scriptlet

open Character Lexeme

/-- Whether a symbol is spelled by a text, in a place after an operand or
not. -/
def Symbol.SpelledBy (afterOperand : Bool) (x : Symbol) (span : List Char) : Prop :=
  ∃ lexeme, Formed afterOperand lexeme ∧ lexeme.symbol? = some x ∧ lexeme.span = span

/-- Whether symbols are written with separators between them. There may be any
number of separators before the first symbol and after the last one. -/
inductive Spaced : Bool → List Symbol → List Char → Prop
  | nil {afterOperand : Bool} : Spaced afterOperand [] []
  | separator {afterOperand : Bool} {c : Char} {w : List Symbol} {text : List Char} :
      isSeparator c = true → Spaced afterOperand w text → Spaced afterOperand w (c :: text)
  | symbol {afterOperand : Bool} {x : Symbol} {span : List Char} {w : List Symbol}
      {text : List Char} :
      x.SpelledBy afterOperand span → (∀ c ∈ text.head?, isSeparator c = true) →
        Spaced x.kind.endsOperand w text → Spaced afterOperand (x :: w) (span ++ text)

variable {afterOperand : Bool} {text : List Char} {w : List Symbol}

/-- The empty text spells nothing. -/
theorem lexes_nil : Lexes afterOperand [] [] :=
  ⟨[], .nil, rfl⟩

/-- A well-formed lexeme is cut off where it is not continued. -/
theorem Lexeme.Formed.cuts {lexeme : Lexeme} {lexemes : List Lexeme}
    (h : Formed afterOperand lexeme)
    (htext : ∀ c ∈ text.head?, continues afterOperand lexeme c = false)
    (hlexemes : Cuts (lexeme.leaves afterOperand) text lexemes) :
    Cuts afterOperand (lexeme.span ++ text) (lexeme :: lexemes) :=
  .cons (h.next htext) hlexemes

/-- After a lexeme with a symbol, an operand has ended if the symbol ends one. -/
theorem Lexeme.leaves_of_symbol? {lexeme : Lexeme} {x : Symbol} (hx : lexeme.symbol? = some x) :
    lexeme.leaves afterOperand = x.kind.endsOperand := by
  obtain ⟨kind, hkind, rfl⟩ := Option.map_eq_some_iff.1 hx
  simp [leaves, hkind]

/-- Nothing continues a semicolon. -/
theorem Lexeme.continues_of_semi {lexeme : Lexeme} {x : Symbol} {c : Char}
    (hx : lexeme.symbol? = some x) (hsemi : x.kind = .semi) :
    continues afterOperand lexeme c = false := by
  obtain ⟨kind, hkind, rfl⟩ := Option.map_eq_some_iff.1 hx
  obtain rfl : kind = .semi := hsemi
  simp [continues, hkind]

/-- A lexeme with a symbol spells it before what follows. -/
theorem Lexes.symbol {lexeme : Lexeme} {x : Symbol} (h : Formed afterOperand lexeme)
    (hx : lexeme.symbol? = some x)
    (htext : ∀ c ∈ text.head?, continues afterOperand lexeme c = false)
    (hw : Lexes x.kind.endsOperand text w) : Lexes afterOperand (lexeme.span ++ text) (x :: w) := by
  obtain ⟨lexemes, hcuts, rfl⟩ := hw
  rw [← leaves_of_symbol? hx] at hcuts
  refine ⟨lexeme :: lexemes, h.cuts htext hcuts, ?_⟩
  rw [List.filterMap_cons_some hx]

/-- A lexeme without a symbol is a run of separators. -/
theorem Lexeme.Formed.blank_of_symbol? {lexeme : Lexeme} (h : Formed afterOperand lexeme)
    (hnone : lexeme.symbol? = none) :
    ∃ span, lexeme = ⟨none, span, []⟩ ∧ ∀ d ∈ span, isSeparator d = true := by
  cases h with
  | @blank span _ hspan => exact ⟨span, rfl, hspan⟩
  | number | punctuation | operator | string | word => simp [symbol?, single] at hnone

/-- A lexeme that starts with a separator is a run of them. -/
theorem Lexeme.Formed.blank_of_separator {lexeme : Lexeme} {rest : List Char}
    (h : Formed afterOperand lexeme)
    (hblank : ¬ ∀ d ∈ (lexeme.span ++ rest).head?, isSeparator d = false) :
    ∃ span, lexeme = ⟨none, span, []⟩ ∧ ∀ d ∈ span, isSeparator d = true := by
  cases h with
  | @blank span _ hspan => exact ⟨span, rfl, hspan⟩
  | number hspan =>
    obtain ⟨c, tail, rfl, hc, -⟩ := hspan.startsNumber
    simp [hc] at hblank
  | punctuation hkind =>
    have hclass := class_of_mem_marks (mem_marks_of_punctuation hkind)
    simp [single, hclass.1] at hblank
  | operator hoperator =>
    have hclass := class_of_mem_marks (mem_marks_of_isOperator hoperator).1
    simp [single, hclass.1] at hblank
  | string hquote =>
    have hclass := class_of_mem_marks (mem_marks_of_isQuote hquote).1
    simp [hclass.1] at hblank
  | word hne hspan =>
    obtain ⟨c, tail, rfl⟩ := List.exists_cons_of_ne_nil hne
    have hclass := class_of_isLetter (hspan c (by simp))
    simp [hclass.1] at hblank

/-- A separator before a text changes nothing: it is a lexeme of its own, or it joins
the run that the text starts with. -/
theorem Lexes.separator {c : Char} (hc : isSeparator c = true) (hw : Lexes afterOperand text w) :
    Lexes afterOperand (c :: text) w := by
  obtain ⟨lexemes, hcuts, rfl⟩ := hw
  by_cases hblank : ∀ d ∈ text.head?, isSeparator d = false
  · have hformed : Formed afterOperand ⟨none, [c], []⟩ := .blank (by simp) (by simp [hc])
    exact ⟨_ :: lexemes, hformed.cuts hblank hcuts, rfl⟩
  · cases hcuts with
    | nil => simp at hblank
    | @cons _ lexeme rest lexemes hnext hrest =>
      obtain ⟨hformed, tail, htail, hends⟩ := formed_of_next hnext
      obtain rfl := List.append_cancel_left htail
      obtain ⟨span, rfl, hspan⟩ := hformed.blank_of_separator hblank
      have hjoined : Formed afterOperand ⟨none, c :: span, []⟩ := by
        refine .blank (by simp) fun d hd => ?_
        rcases List.mem_cons.1 hd with rfl | hd
        · exact hc
        · exact hspan d hd
      exact ⟨_ :: lexemes, hjoined.cuts hends hrest, rfl⟩

/-- Separators before a text change nothing. -/
theorem Lexes.separators {span : List Char} (hspan : ∀ c ∈ span, isSeparator c = true)
    (hw : Lexes afterOperand text w) : Lexes afterOperand (span ++ text) w := by
  induction span with
  | nil => exact hw
  | cons c span ih =>
    have hc := hspan c (by simp)
    exact (ih fun d hd => hspan d (by simp [hd])).separator hc

/-- Whether a character ends every name and every number before it. -/
def Delimits (c : Char) : Prop :=
  isDigit c = false ∧ isLetter c = false ∧ c ≠ '.'

instance (c : Char) : Decidable (Delimits c) :=
  inferInstanceAs (Decidable (_ ∧ _ ∧ _))

/-- A delimiter continues no lexeme that has a symbol. -/
theorem Lexeme.Formed.continues_delimiter {lexeme : Lexeme} {x : Symbol} {c : Char}
    (h : Formed afterOperand lexeme) (hx : lexeme.symbol? = some x)
    (hc : Delimits c) : continues afterOperand lexeme c = false := by
  obtain ⟨hdigit, hletter, hpoint⟩ := hc
  cases h with
  | blank => simp [symbol?] at hx
  | number => simp [continues, hdigit, hpoint]
  | punctuation hkind => simp [continues_punctuation hkind, hdigit]
  | operator => rfl
  | string => rfl
  | word => rw [continues_word, hletter]

/-- A separator is a delimiter. -/
theorem delimits_of_isSeparator {c : Char} (hc : isSeparator c = true) : Delimits c := by
  refine ⟨isDigit_of_isSeparator hc, isLetter_of_isSeparator hc, ?_⟩
  rintro rfl
  revert hc
  decide

/-- A separator continues no lexeme that has a symbol. -/
theorem Lexeme.Formed.continues_separator {lexeme : Lexeme} {x : Symbol} {c : Char}
    (h : Formed afterOperand lexeme) (hx : lexeme.symbol? = some x)
    (hc : isSeparator c = true) : continues afterOperand lexeme c = false :=
  h.continues_delimiter hx (delimits_of_isSeparator hc)

/-- Symbols written with separators between them are spelled by what is
written. -/
theorem Spaced.lexes (h : Spaced afterOperand w text) : Lexes afterOperand text w := by
  induction h with
  | nil => exact lexes_nil
  | separator hc _ ih => exact ih.separator hc
  | symbol hx htext _ ih =>
    obtain ⟨lexeme, hformed, hsymbol, rfl⟩ := hx
    exact .symbol hformed hsymbol (fun c hc => hformed.continues_separator hsymbol (htext c hc)) ih

/-- A text whose last symbol, if it has one, is a semicolon can be followed by another
text. The character after a symbol stays the same, unless the symbol is this
semicolon. -/
theorem Lexes.append {b : List Char} {v : List Symbol} (h : Lexes afterOperand text w)
    (hstart : w = [] → afterOperand = false) (hlast : ∀ x ∈ w.getLast?, x.kind = .semi)
    (hb : Lexes false b v) : Lexes afterOperand (text ++ b) (w ++ v) := by
  obtain ⟨lexemes, hcuts, rfl⟩ := h
  induction hcuts with
  | nil =>
    rw [hstart rfl]
    exact hb
  | @cons afterOperand lexeme rest lexemes hnext hrest ih =>
    obtain ⟨hformed, tail, htail, hends⟩ := formed_of_next hnext
    obtain rfl := List.append_cancel_left htail
    rw [List.append_assoc]
    cases hx : lexeme.symbol? with
    | none =>
      rw [List.filterMap_cons_none hx] at hstart hlast ⊢
      obtain ⟨span, rfl, hspan⟩ := hformed.blank_of_symbol? hx
      exact (ih hstart hlast).separators hspan
    | some x =>
      rw [List.filterMap_cons_some hx] at hlast ⊢
      have hleaves : lexeme.leaves afterOperand = x.kind.endsOperand := leaves_of_symbol? hx
      rw [hleaves] at ih
      by_cases hw : lexemes.filterMap symbol? = []
      · have hsemi : x.kind = .semi := hlast x (by simp [hw])
        have hstop : ∀ c ∈ (rest ++ b).head?, continues afterOperand lexeme c = false := by
          intro c _
          rw [continues_of_semi hx hsemi]
        refine .symbol hformed hx hstop (ih ?_ ?_)
        · intro _
          rw [hsemi]
          rfl
        · simp [hw]
      · have hne : rest ≠ [] := by
          rintro rfl
          exact hw (by rw [cuts_nil_iff.1 hrest]; rfl)
        have hhead : (rest ++ b).head? = rest.head? := by
          obtain ⟨c, rest, rfl⟩ := List.exists_cons_of_ne_nil hne
          rfl
        refine .symbol hformed hx (hhead ▸ hends) (ih (fun h => absurd h hw) fun y hy => ?_)
        exact hlast y (by simp [List.getLast?_cons, Option.mem_def.1 hy])

end Scriptlet
