import Scriptlet.Proofs.Token.Reading
import Scriptlet.Proofs.Token.Spelling

/-!
# Texts with separators between them

Two texts with separators between them are read one after the other. The second
text gives the tokens, or the error, that it gives on its own, moved to where it
starts. There is one exception: a point and a digit at the start of the second
text ask for a field, and do not start a number, if the first text ends with an
operand.
-/

namespace Scriptlet

open Character Lexeme

/-- Where a place of a text is when another text comes before it: lines are moved by the
newlines of that text, and columns, in the first line only, by what follows the last
newline. -/
def Position.movedBy (before : List Char) (p : Position) : Position :=
  ⟨p.line + before.count '\n',
    if p.line = 1 then p.column + (before.reverse.takeWhile (· ≠ '\n')).length else p.column⟩

/-- A token in a text that follows another one. -/
def Token.movedBy (before : List Char) (t : Token) : Token :=
  { t with position := t.position.movedBy before }

/-- An error in a text that follows another one. -/
def LexError.movedBy (before : List Char) (e : LexError) : LexError :=
  { e with
    offset := e.offset + before.length
    position := e.position.movedBy before }

section Moved

variable (before : List Char)

/-- The start of a text is moved to the end of the one before it. -/
theorem Position.movedBy_start : start.movedBy before = ofText before := by
  simp [movedBy, start, ofText, Nat.add_comm]

/-- A place moves on in the same way after another text. -/
theorem Position.movedBy_next {p : Position} (hp : 1 ≤ p.line) (c : Char) :
    (p.movedBy before).next c = (p.next c).movedBy before := by
  unfold next movedBy
  split
  · have hline : p.line + 1 ≠ 1 := by omega
    simp only [if_neg hline, Nat.add_right_comm]
  · dsimp only
    split <;> simp only [Nat.add_right_comm]

/-- The number of a line does not get smaller. -/
theorem Position.line_le_next (p : Position) (c : Char) : p.line ≤ (p.next c).line := by
  unfold next
  split <;> simp

/-- The place after a run of characters moves on in the same way. -/
theorem Position.movedBy_after {p : Position} (hp : 1 ≤ p.line) (text : List Char) :
    (p.movedBy before).after text = (p.after text).movedBy before ∧ 1 ≤ (p.after text).line := by
  induction text generalizing p with
  | nil => exact ⟨rfl, hp⟩
  | cons c text ih =>
    have hnext : 1 ≤ (p.next c).line := Nat.le_trans hp (p.line_le_next c)
    rw [after_cons, after_cons, movedBy_next before hp]
    exact ih hnext

/-- The place after a text that follows another one. -/
theorem Position.ofText_append (text : List Char) :
    ofText (before ++ text) = (ofText text).movedBy before := by
  rw [← start_after, after_append, start_after, ← movedBy_start,
    (movedBy_after before (by decide) text).1, start_after]

/-- The tokens of lexemes move with the place where the first one starts. -/
theorem Lexeme.tokensFrom_movedBy {p : Position} (hp : 1 ≤ p.line) (lexemes : List Lexeme) :
    tokensFrom (p.movedBy before) lexemes = (tokensFrom p lexemes).map (Token.movedBy before) := by
  induction lexemes generalizing p with
  | nil => rfl
  | cons lexeme lexemes ih =>
    obtain ⟨hafter, hline⟩ := Position.movedBy_after before hp lexeme.span
    rw [tokensFrom, tokensFrom, List.map_append, hafter, ih hline]
    cases hk : lexeme.kind with
    | none => simp [token?, hk]
    | some kind => simp [token?, hk, Token.movedBy]

end Moved

namespace Lexeme

variable {afterOperand : Bool} {text : List Char} {lexemes : List Lexeme}
  {stop : Option (Char × Obstacle)}

/-- Whether a text starts, after separators, with a point and a digit. -/
def StartsWithPoint (text : List Char) : Prop :=
  ∃ d rest, text.dropWhile isSeparator = '.' :: d :: rest ∧ isDigit d = true

/-- Whether an operand has just ended matters only before a point and a digit. -/
theorem next_of_not_startsWithPoint (h : ¬ StartsWithPoint text) :
    next true text = next false text := by
  cases text with
  | nil => rfl
  | cons c rest =>
    by_cases hseparator : isSeparator c = true
    · rw [next, next, if_pos hseparator, if_pos hseparator]
    · have hstarts : startsNumber true c rest = startsNumber false c rest := by
        unfold startsNumber
        cases rest with
        | nil => simp
        | cons d rest =>
          by_cases hpoint : c = '.'
          · have hd : isDigit d = false := by
              rw [Bool.eq_false_iff]
              intro hd
              exact h ⟨d, rest, by rw [List.dropWhile_cons_of_neg hseparator, hpoint], hd⟩
            simp [hd]
          · simp [hpoint]
      rw [next, next, hstarts]

/-- A text that does not start with a point and a digit is read in the same way after an
operand. A run of separators leaves open whether an operand has ended. -/
theorem Reads.after_operand (h : Reads false text lexemes stop) (hpoint : ¬ StartsWithPoint text) :
    Reads true text lexemes stop := by
  generalize hoperand : false = operand at h
  induction h with
  | finished => exact .finished
  | stopped hnext =>
    subst hoperand
    exact .stopped ((next_of_not_startsWithPoint hpoint).trans hnext)
  | @cons _ lexeme rest lexemes stop hnext hrest ih =>
    subst hoperand
    refine .cons ((next_of_not_startsWithPoint hpoint).trans hnext) ?_
    have hformed := (formed_of_next hnext).1
    cases hx : lexeme.symbol? with
    | some x =>
      have hleaves : lexeme.leaves true = lexeme.leaves false :=
        (leaves_of_symbol? hx).trans (leaves_of_symbol? hx).symm
      rwa [hleaves]
    | none =>
      obtain ⟨span, rfl, hspan⟩ := hformed.blank_of_symbol? hx
      refine ih (fun hstarts => hpoint ?_) rfl
      obtain ⟨d, later, hdrop, hd⟩ := hstarts
      exact ⟨d, later, by rwa [List.dropWhile_append_of_pos hspan], hd⟩

/-- Whether lexemes are others with separators before them: they cover these
separators, too, and have the same tokens after them. -/
structure Prepends (span : List Char) (lexemes others : List Lexeme) : Prop where
  /-- The separators are covered. -/
  flatMap_span : others.flatMap Lexeme.span = span ++ lexemes.flatMap Lexeme.span
  /-- The tokens come after the separators. -/
  tokensFrom_eq : ∀ position : Position,
    tokensFrom position others = tokensFrom (position.after span) lexemes

/-- Separators before a text make no tokens: they are a lexeme of their own, or they
join the run that the text starts with. -/
theorem Reads.separators {span : List Char} (h : Reads afterOperand text lexemes stop)
    (hspan : ∀ c ∈ span, isSeparator c = true) :
    ∃ others, Reads afterOperand (span ++ text) others stop ∧ Prepends span lexemes others := by
  by_cases hne : span = []
  · subst hne
    exact ⟨lexemes, h, by simp, fun _ => rfl⟩
  by_cases hblank : ∀ c ∈ text.head?, isSeparator c = false
  · have hformed : Formed afterOperand ⟨none, span, []⟩ := .blank hne hspan
    exact ⟨⟨none, span, []⟩ :: lexemes, .cons (hformed.next hblank) h, rfl, fun _ => rfl⟩
  · cases h with
    | finished => simp at hblank
    | @stopped _ c rest obstacle hnext =>
      have hc : isSeparator c = true := by simpa using hblank
      simp [next, hc] at hnext
    | @cons _ lexeme rest lexemes stop hnext hrest =>
      obtain ⟨hformed, tail, htail, hends⟩ := formed_of_next hnext
      obtain rfl := List.append_cancel_left htail
      obtain ⟨run, rfl, hrun⟩ := hformed.blank_of_separator hblank
      have hjoined : Formed afterOperand ⟨none, span ++ run, []⟩ := by
        refine .blank (by simp [hne]) fun d hd => ?_
        rcases List.mem_append.1 hd with hd | hd
        · exact hspan d hd
        · exact hrun d hd
      have hreads : Reads afterOperand ((span ++ run) ++ rest) (⟨none, span ++ run, []⟩ :: lexemes)
          stop := .cons (hjoined.next hends) hrest
      refine ⟨_, List.append_assoc span run rest ▸ hreads, by simp, fun position => ?_⟩
      simp [tokensFrom, token?]

/-- A text that is cut to its end goes on, after separators, as another one: after a
symbol comes a separator, or the same text as before. -/
theorem Cuts.append_separated {a w b : List Char} {more : List Lexeme}
    (ha : Cuts afterOperand a lexemes) (hne : w ≠ []) (hw : ∀ c ∈ w, isSeparator c = true)
    (hb : Reads (leavesAll afterOperand lexemes) b more stop) :
    ∃ others, Reads afterOperand (a ++ (w ++ b)) others stop ∧
      others.flatMap span = (a ++ w) ++ more.flatMap span ∧
      ∀ position : Position, tokensFrom position others =
        tokensFrom position lexemes ++ tokensFrom (position.after (a ++ w)) more := by
  induction ha with
  | nil =>
    obtain ⟨others, hreads, hothers⟩ := hb.separators hw
    exact ⟨others, hreads, hothers.flatMap_span, hothers.tokensFrom_eq⟩
  | @cons afterOperand lexeme rest lexemes hnext hcuts ih =>
    obtain ⟨others, hreads, hspan, htokens⟩ := ih hb
    have hformed := (formed_of_next hnext).1
    rw [List.append_assoc]
    cases hx : lexeme.symbol? with
    | some x =>
      obtain ⟨c, later, rfl⟩ := List.exists_cons_of_ne_nil hne
      have hstop : continues afterOperand lexeme c = false :=
        hformed.continues_separator hx (hw c (by simp))
      refine ⟨lexeme :: others, .cons (next_append hnext fun _ => hstop) hreads, ?_, fun p => ?_⟩
      · simp [hspan]
      · simp [tokensFrom, htokens]
    | none =>
      obtain ⟨run, rfl, hrun⟩ := hformed.blank_of_symbol? hx
      obtain ⟨joined, hjoined, hprepends⟩ := hreads.separators hrun
      refine ⟨joined, hjoined, ?_, fun p => ?_⟩
      · simp [hprepends.flatMap_span, hspan]
      · simp [hprepends.tokensFrom_eq, htokens, tokensFrom, token?]

end Lexeme

/-- The answer for a text that follows another one. -/
def movedTokens (before : List Char) (tokens : List Token) :
    Except LexError (List Token) → Except LexError (List Token)
  | .ok more => .ok (tokens ++ more.map (Token.movedBy before))
  | .error e => .error (e.movedBy before)

/-- What is read after another text is answered as if it stood alone, and moved. -/
theorem answer_append {before : List Char} {lexemes others more : List Lexeme}
    {stop : Option (Char × Obstacle)}
    (hspan : others.flatMap span = before ++ more.flatMap span)
    (htokens : tokensFrom .start others =
      tokensFrom .start lexemes ++ tokensFrom (.ofText before) more) :
    answer others stop = movedTokens before (tokensFrom .start lexemes) (answer more stop) := by
  have hplace : Position.ofText (others.flatMap span) =
      (Position.ofText (more.flatMap span)).movedBy before := by
    rw [hspan, Position.ofText_append]
  rw [← Position.movedBy_start, tokensFrom_movedBy before (by decide)] at htokens
  cases stop with
  | none => simp [answer, movedTokens, htokens, hplace, Token.movedBy]
  | some found =>
    have hlength : (others.flatMap span).length = (more.flatMap span).length + before.length := by
      rw [hspan, List.length_append, Nat.add_comm]
    simp only [answer, movedTokens, LexError.movedBy, hplace, hlength]

/-- Two texts with separators between them give the tokens of the first and those of
the second, moved to where it starts, or the error of the second, moved in the same
way, unless the first ends with an operand and the second starts with a point and a
digit. -/
theorem tokenize_append_separated {a w b : String} {tokens : List Token} {last : Token}
    (ha : tokenize a = .ok (tokens ++ [last])) (hne : w ≠ "")
    (hw : ∀ c ∈ w.toList, c = ' ' ∨ c = '\t' ∨ c = '\n' ∨ c = '\r')
    (hpoint : ¬ ((∃ t ∈ tokens.getLast?, t.kind ∈ [.ident, .number, .rpar, .rsqb, .rbrace]) ∧
      StartsWithPoint b.toList)) :
    tokenize (a ++ w ++ b) = movedTokens (a ++ w).toList tokens (tokenize b) := by
  obtain ⟨lexemes, hcuts, htokens⟩ := tokenize_eq_ok_iff.1 ha
  obtain ⟨rfl, -⟩ := List.append_inj' htokens rfl
  obtain ⟨more, stop, hmore⟩ := exists_reads false b.toList
  have hspaces : ∀ c ∈ w.toList, isSeparator c = true := by
    intro c hc
    rcases hw c hc with rfl | rfl | rfl | rfl <;> rfl
  have hfollows : Reads (leavesAll false lexemes) b.toList more stop := by
    cases hoperand : leavesAll false lexemes with
    | false => exact hmore
    | true =>
      refine hmore.after_operand fun hstarts => hpoint ⟨?_, hstarts⟩
      exact leavesAll_iff.1 hoperand
  have hnil : w.toList ≠ [] := fun h => hne (String.toList_injective h)
  obtain ⟨others, hreads, hspan, htokens⟩ := hcuts.append_separated hnil hspaces hfollows
  rw [← List.append_assoc, ← String.toList_append, ← String.toList_append] at hreads
  rw [tokenize_of_reads hreads, tokenize_of_reads hmore, String.toList_append]
  refine answer_append hspan ?_
  rw [htokens, Position.start_after]

/-- A point after an operand asks for a field, whatever stands between them. -/
example : tokenize ("a" ++ " " ++ ".5") ≠
    movedTokens ("a" ++ " ").toList [⟨.ident, "a", ⟨1, 1⟩⟩] (tokenize ".5") := by
  decide +kernel

/-- A field on the line after an operand, and an error on the line after that. -/
theorem tokenize_append_separated_field :
    let tokens : List Token := [⟨.lpar, "(", ⟨1, 1⟩⟩, ⟨.ident, "a", ⟨2, 2⟩⟩]
    tokenize "(\n a" = .ok (tokens ++ [⟨.eof, Token.endText, ⟨2, 3⟩⟩]) ∧
      tokenize ("(\n a" ++ "\t" ++ " .b\n@") =
        movedTokens ("(\n a" ++ "\t").toList tokens (tokenize " .b\n@") ∧
      tokenize ("(\n a" ++ "\t" ++ " .b\n@") = .error ⟨'@', 9, ⟨3, 1⟩, .unrecognized⟩ := by
  intro tokens
  have htokens : tokenize "(\n a" = .ok (tokens ++ [⟨.eof, Token.endText, ⟨2, 3⟩⟩]) := by
    decide +kernel
  have hfield : tokenize " .b\n@" = .error ⟨'@', 4, ⟨2, 1⟩, .unrecognized⟩ := by decide +kernel
  have hpoint : ¬ StartsWithPoint " .b\n@".toList := by
    rintro ⟨d, rest, htext, hd⟩
    have hb : " .b\n@".toList.dropWhile isSeparator = ['.', 'b', '\n', '@'] := by decide
    obtain rfl : 'b' = d := (List.cons.inj (List.cons.inj (hb.symm.trans htext)).2).1
    revert hd
    decide
  have htab : ∀ c ∈ "\t".toList, c = ' ' ∨ c = '\t' ∨ c = '\n' ∨ c = '\r' := by
    intro c hc
    exact .inr (.inl (by simpa using hc))
  have happend := tokenize_append_separated htokens (by decide) htab (fun h => hpoint h.2)
  refine ⟨htokens, happend, ?_⟩
  rw [happend, hfield]
  rfl

end Scriptlet
