import Scriptlet.Proofs.Token.Spelling

/-!
# Taking separators out of a text

A text spells the same symbols after some of its separators are taken out, as
long as no two symbols run together that only such separators keep apart. Which
lexemes a text is cut into, and so which symbols it spells, is settled by the
text.
-/

namespace Scriptlet

open Character

namespace Lexeme

/-- A text is cut in one way only. -/
theorem Cuts.unique {afterOperand : Bool} {text : List Char} {lexemes others : List Lexeme}
    (h : Cuts afterOperand text lexemes) (h' : Cuts afterOperand text others) :
    lexemes = others := by
  induction h generalizing others with
  | nil => exact (cuts_nil_iff.1 h').symm
  | cons hnext _ ih =>
    obtain ⟨rest, later, htext, rfl, hlater⟩ := (cuts_iff_of_next hnext).1 h'
    obtain rfl := List.append_cancel_left htext
    rw [ih hlater]

/-- The symbols other than strings are made of digits, letters and marks. -/
theorem Formed.class_of_mem_span {afterOperand : Bool} {lexeme : Lexeme} {c : Char}
    (h : Formed afterOperand lexeme) (hsymbol : lexeme.symbol? ≠ none)
    (hstring : lexeme.kind ≠ some .string) (hc : c ∈ lexeme.span) :
    isDigit c = true ∨ isLetter c = true ∨ c ∈ marks := by
  cases h with
  | blank => exact absurd rfl hsymbol
  | number hspan =>
    cases hspan with
    | whole _ hdigits => exact .inl (hdigits c hc)
    | point hwhole hfraction =>
      rcases List.mem_append.1 hc with hc | hc
      · exact .inl (hwhole c hc)
      rcases List.mem_cons.1 hc with rfl | hc
      · exact .inr (.inr (by decide))
      · exact .inl (hfraction c hc)
  | punctuation hkind =>
    obtain rfl := List.mem_singleton.1 hc
    exact .inr (.inr (mem_marks_of_punctuation hkind))
  | operator hoperator =>
    obtain rfl := List.mem_singleton.1 hc
    exact .inr (.inr (mem_marks_of_isOperator hoperator).1)
  | string => exact absurd rfl hstring
  | word _ hletters => exact .inr (.inl (hletters c hc))

/-- Whether a lexeme goes on with the start of another one. -/
def runsInto (x y : Lexeme) : Bool :=
  y.span.head?.any (continues false x)

/-- Whether no lexeme runs into the next but one when the characters that are not
kept are taken out, and nothing is left between the two. -/
def staysApart (kept : Char → Bool) : List Lexeme → Bool
  | [] => true
  | x :: later =>
    (match later with
    | gap :: y :: _ => gap.span.any kept || !runsInto x y
    | _ => true) && staysApart kept later

/-- What does not continue a lexeme does not continue it after an operand. -/
theorem continues_eq_false {afterOperand : Bool} {x : Lexeme} {c : Char}
    (h : continues false x c = false) : continues afterOperand x c = false := by
  unfold continues at h ⊢
  split at h
  case h_3 => simp_all
  all_goals exact h

/-- No run of separators comes after another one. -/
theorem Cuts.symbol?_ne_none {afterOperand : Bool} {rest : List Char} {x y : Lexeme}
    {lexemes : List Lexeme} (hnext : next afterOperand (x.span ++ rest) = .ok x)
    (hx : x.symbol? = none) (hrest : Cuts (x.leaves afterOperand) rest (y :: lexemes)) :
    y.symbol? ≠ none := by
  intro hy
  obtain ⟨hformed, tail, htail, hends⟩ := formed_of_next hnext
  obtain rfl := List.append_cancel_left htail
  obtain ⟨span, rfl, -⟩ := hformed.blank_of_symbol? hx
  cases hrest with
  | @cons _ _ later _ hlater _ =>
    obtain ⟨other, rfl, hother⟩ := (formed_of_next hlater).1.blank_of_symbol? hy
    obtain ⟨c, other, rfl⟩ := List.exists_cons_of_ne_nil (span_ne_nil hlater)
    have hstop : isSeparator c = false := hends c rfl
    rw [hother c (by simp)] at hstop
    cases hstop

/-- Whether the characters of all symbols are kept. -/
def KeepsSymbols (kept : Char → Bool) (lexemes : List Lexeme) : Prop :=
  ∀ lexeme ∈ lexemes, lexeme.symbol? ≠ none → ∀ c ∈ lexeme.span, kept c = true

variable {kept : Char → Bool}

/-- A lexeme that stays apart is not continued by what is left of the text after it: a
separator, or the first character of the next symbol, whose characters are all kept. -/
theorem Cuts.continues_filter {afterOperand : Bool} {rest : List Char} {lexeme : Lexeme}
    {x : Symbol} {lexemes : List Lexeme}
    (hnext : next afterOperand (lexeme.span ++ rest) = .ok lexeme)
    (hx : lexeme.symbol? = some x) (hrest : Cuts (lexeme.leaves afterOperand) rest lexemes)
    (hkept : KeepsSymbols kept lexemes) (hapart : staysApart kept (lexeme :: lexemes) = true) :
    ∀ c ∈ (rest.filter kept).head?, continues afterOperand lexeme c = false := by
  obtain ⟨hformed, tail, htail, hends⟩ := formed_of_next hnext
  obtain rfl := List.append_cancel_left htail
  have hhead : ∀ {y : Lexeme} {later : List Char}, y ∈ lexemes → y.symbol? ≠ none →
      y.span ≠ [] → ((y.span ++ later).filter kept).head? = y.span.head? := by
    intro y later hmem hy hne
    obtain ⟨c, span, hspan⟩ := List.exists_cons_of_ne_nil hne
    have hc : kept c = true := hkept y hmem hy c (by simp [hspan])
    simp [hspan, hc]
  cases hrest with
  | nil => simp
  | @cons _ gap later lexemes hgap hlater =>
    intro c hc
    by_cases hsymbol : gap.symbol? = none
    · by_cases hleft : gap.span.filter kept = []
      · rw [List.filter_append, hleft, List.nil_append] at hc
        cases hlater with
        | nil => simp at hc
        | @cons _ y later lexemes hy hlexemes =>
          have hy' : y.symbol? ≠ none := symbol?_ne_none hgap hsymbol (.cons hy hlexemes)
          rw [hhead (by simp) hy' (span_ne_nil hy)] at hc
          have hnone : gap.span.any kept = false := by simpa using hleft
          simp only [staysApart, hnone, Bool.false_or, runsInto, Option.mem_def.1 hc,
            Option.any_some, Bool.and_eq_true, Bool.not_eq_true'] at hapart
          exact continues_eq_false hapart.1
      · obtain ⟨span, rfl, hspan⟩ := (formed_of_next hgap).1.blank_of_symbol? hsymbol
        obtain ⟨d, left, hd⟩ := List.exists_cons_of_ne_nil hleft
        have hmem : d ∈ span := (List.mem_filter.1 (hd ▸ List.mem_cons_self)).1
        obtain rfl : d = c := by simpa [hd] using hc
        exact hformed.continues_separator hx (hspan d hmem)
    · rw [hhead (by simp) hsymbol (span_ne_nil hgap)] at hc
      refine hends c ?_
      rw [List.head?_append, Option.mem_def.1 hc]
      rfl

/-- A text spells the same symbols if some of its separators are taken out and no two
symbols run together. -/
theorem Cuts.lexes_filter {afterOperand : Bool} {text : List Char} {lexemes : List Lexeme}
    (h : Cuts afterOperand text lexemes) (hkept : KeepsSymbols kept lexemes)
    (hapart : staysApart kept lexemes = true) :
    Lexes afterOperand (text.filter kept) (lexemes.filterMap symbol?) := by
  induction h with
  | nil => exact lexes_nil
  | @cons afterOperand lexeme rest lexemes hnext hrest ih =>
    have hformed := (formed_of_next hnext).1
    have hlater : KeepsSymbols kept lexemes := fun y hy => hkept y (by simp [hy])
    have ih := ih hlater (Bool.and_eq_true_iff.1 hapart).2
    rw [List.filter_append]
    cases hx : lexeme.symbol? with
    | none =>
      obtain ⟨span, rfl, hspan⟩ := hformed.blank_of_symbol? hx
      rw [List.filterMap_cons_none hx]
      exact ih.separators fun c hc => hspan c (List.mem_filter.1 hc).1
    | some x =>
      have hspan : lexeme.span.filter kept = lexeme.span :=
        List.filter_eq_self.2 (hkept lexeme (by simp) (by simp [hx]))
      have hends := continues_filter hnext hx hrest hlater hapart
      rw [leaves_of_symbol? hx] at ih
      rw [List.filterMap_cons_some hx, hspan]
      exact .symbol hformed hx hends ih

end Lexeme

/-- A text spells one sequence of symbols only. -/
theorem Lexes.unique {afterOperand : Bool} {text : List Char} {v w : List Symbol}
    (hv : Lexes afterOperand text v) (hw : Lexes afterOperand text w) : v = w := by
  obtain ⟨lexemes, hlexemes, rfl⟩ := hv
  obtain ⟨others, hothers, rfl⟩ := hw
  rw [hlexemes.unique hothers]

end Scriptlet
