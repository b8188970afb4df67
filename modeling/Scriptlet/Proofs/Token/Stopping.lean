import Scriptlet.Proofs.Token.Tiling

/-!
# Where cutting stops

A source text that cannot be cut to its end is cut up to the first character
at which no lexeme can be cut off. The failure is about this character, and
what stands before it can be cut as a text of its own, into the same lexemes:
they are as long as they would be if nothing followed.
-/

namespace Scriptlet

open Lexeme

/-- Whether an operand has just ended after lexemes. -/
def Lexeme.leavesAll (afterOperand : Bool) (lexemes : List Lexeme) : Bool :=
  lexemes.foldl leaves afterOperand

/-- A lexeme that other text follows is cut off as well if only the start of that
text follows. -/
theorem Lexeme.Cuts.cons_of_next {afterOperand : Bool} {lexeme : Lexeme} {passed rest : List Char}
    {lexemes : List Lexeme}
    (hnext : next afterOperand (lexeme.span ++ (passed ++ rest)) = .ok lexeme)
    (h : Cuts (lexeme.leaves afterOperand) passed lexemes) :
    Cuts afterOperand (lexeme.span ++ passed) (lexeme :: lexemes) := by
  obtain ⟨hformed, tail, htail, hends⟩ := formed_of_next hnext
  obtain rfl := List.append_cancel_left htail
  refine .cons (hformed.next fun c hc => hends c ?_) h
  obtain ⟨later, rfl⟩ := List.head?_eq_some_iff.1 hc
  rfl

namespace Scanner

/-- Scanning a lexeme fails at the character where the scanner stands. -/
theorem eq_of_scan_error {s t : Scanner} {e : LexError} (hrest : s.rest ≠ [])
    (h : s.scan = .error e t) :
    ∃ c rest, s.rest = c :: rest ∧ next s.afterOperand (c :: rest) = .error e.obstacle ∧
      e = ⟨c, s.offset, s.position, e.obstacle⟩ := by
  obtain ⟨c, rest, hs⟩ := List.exists_cons_of_ne_nil hrest
  have hpeek : s.peek 0 = c := by simp [peek, hs]
  unfold scan settle at h
  rw [hs] at h
  cases hnext : next s.afterOperand (c :: rest) with
  | ok lexeme => simp [hnext] at h
  | error obstacle =>
    have he : e = ⟨c, s.offset, s.position, obstacle⟩ := by
      rw [hnext] at h
      cases obstacle with
      | unrecognized | unterminated =>
        simp only [failure, hpeek, EStateM.Result.error.injEq] at h
        exact h.1.symm
    refine ⟨c, rest, hs, ?_, ?_⟩
    · rw [he, hnext]
    · rw [he]

/-- Scanning to the end fails after lexemes that the text before the failure is
cut into. -/
theorem exists_cuts_of_scanAll_error {s t : Scanner} {e : LexError}
    (h : s.scanAll = .error e t) :
    ∃ passed c rest lexemes, s.rest = passed ++ c :: rest ∧ Cuts s.afterOperand passed lexemes ∧
      next (leavesAll s.afterOperand lexemes) (c :: rest) = .error e.obstacle ∧
      e = ⟨c, s.offset + passed.length, s.position.after passed, e.obstacle⟩ := by
  fun_induction scanAll s with
  | case1 => cases h
  | case2 s hrest u hscan ih =>
    obtain ⟨lexeme, hnext, rfl⟩ := scan_eq_ok_iff.1 hscan
    obtain ⟨later, hlater⟩ := span_isPrefixOf hnext
    obtain ⟨passed, c, rest, lexemes, hsplit, hcuts, hstop, he⟩ := ih h
    rw [afterOperand_take] at hcuts hstop
    rw [take_eq hlater.symm] at hsplit he
    obtain rfl : later = passed ++ c :: rest := hsplit
    rw [← hlater] at hnext ⊢
    refine ⟨lexeme.span ++ passed, c, rest, lexeme :: lexemes, ?_,
      hcuts.cons_of_next hnext, hstop, ?_⟩
    · rw [List.append_assoc]
    · rw [he]
      simp [Nat.add_assoc]
  | case3 s hrest e u hscan =>
    cases h
    obtain ⟨c, rest, hs, hnext, he⟩ := eq_of_scan_error hrest hscan
    exact ⟨[], c, rest, [], hs, .nil, hnext, by simpa using he⟩

end Scanner

/-- A text without tokens is cut up to the character at which it fails. -/
theorem exists_cuts_of_tokenize_error {source : String} {e : LexError}
    (h : tokenize source = .error e) :
    ∃ passed c rest lexemes, source.toList = passed ++ c :: rest ∧ Cuts false passed lexemes ∧
      next (leavesAll false lexemes) (c :: rest) = .error e.obstacle ∧
      e = ⟨c, passed.length, .ofText passed, e.obstacle⟩ := by
  unfold tokenize at h
  cases hscan : (Scanner.ofSource source).scanAll with
  | ok u s => simp [hscan] at h
  | error failure s =>
    obtain rfl : failure = e := by simpa [hscan] using h
    obtain ⟨passed, c, rest, lexemes, hsplit, hcuts, hstop, he⟩ :=
      Scanner.exists_cuts_of_scanAll_error hscan
    refine ⟨passed, c, rest, lexemes, hsplit, hcuts, hstop, ?_⟩
    rw [he]
    simp [Scanner.ofSource, Position.start_after]

end Scriptlet
