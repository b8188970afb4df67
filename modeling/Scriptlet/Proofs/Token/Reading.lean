import Scriptlet.Proofs.Token.Stopping

/-!
# Reading a source text

Every source text is read in one way: it is cut into lexemes up to its end, or up
to a character at which no lexeme can be cut off. What tokenizing answers is told
by these lexemes and this character. A text that is cut to its end goes on being
cut in the same way before another text, as long as its last lexeme does not
continue there.
-/

namespace Scriptlet

namespace Lexeme

/-- Whether a text is cut into the given lexemes, up to its end, or up to a character
at which cutting stops for the given reason. -/
inductive Reads : Bool → List Char → List Lexeme → Option (Char × Obstacle) → Prop
  | finished {afterOperand : Bool} : Reads afterOperand [] [] none
  | stopped {afterOperand : Bool} {c : Char} {rest : List Char} {obstacle : Obstacle} :
      next afterOperand (c :: rest) = .error obstacle →
        Reads afterOperand (c :: rest) [] (some (c, obstacle))
  | cons {afterOperand : Bool} {lexeme : Lexeme} {rest : List Char} {lexemes : List Lexeme}
      {stop : Option (Char × Obstacle)} :
      next afterOperand (lexeme.span ++ rest) = .ok lexeme →
        Reads (lexeme.leaves afterOperand) rest lexemes stop →
          Reads afterOperand (lexeme.span ++ rest) (lexeme :: lexemes) stop

variable {afterOperand : Bool} {text : List Char} {lexemes : List Lexeme}
  {stop : Option (Char × Obstacle)}

/-- A text that is read to its end is cut into its lexemes. -/
theorem Reads.cuts (h : Reads afterOperand text lexemes none) :
    Cuts afterOperand text lexemes := by
  generalize hstop : none = stop at h
  induction h with
  | finished => exact .nil
  | stopped => cases hstop
  | cons hnext _ ih => exact .cons hnext (ih hstop)

/-- Every text is read, since each lexeme leaves less of it. -/
theorem exists_reads (afterOperand : Bool) (text : List Char) :
    ∃ lexemes stop, Reads afterOperand text lexemes stop := by
  induction hlength : text.length using Nat.strongRecOn generalizing afterOperand text with
  | ind length ih =>
    cases text with
    | nil => exact ⟨[], none, .finished⟩
    | cons c rest =>
      cases hnext : next afterOperand (c :: rest) with
      | error obstacle => exact ⟨[], some (c, obstacle), .stopped hnext⟩
      | ok lexeme =>
        obtain ⟨later, hlater⟩ := span_isPrefixOf hnext
        have hspan : 0 < lexeme.span.length := List.length_pos_iff.2 (span_ne_nil hnext)
        have hless : later.length < length := by
          have hsum := congrArg List.length hlater
          rw [List.length_append, hlength] at hsum
          omega
        obtain ⟨lexemes, stop, hreads⟩ := ih _ hless (lexeme.leaves afterOperand) later rfl
        rw [← hlater] at hnext ⊢
        exact ⟨lexeme :: lexemes, stop, .cons hnext hreads⟩

/-- A lexeme that text follows is cut off as well if more follows that text, as
long as the first character of what follows continues no lexeme. -/
theorem next_append {lexeme : Lexeme} {c : Char} {later rest : List Char}
    (h : next afterOperand (lexeme.span ++ later) = .ok lexeme)
    (hc : later = [] → continues afterOperand lexeme c = false) :
    next afterOperand (lexeme.span ++ (later ++ c :: rest)) = .ok lexeme := by
  obtain ⟨hformed, tail, htail, hends⟩ := formed_of_next h
  obtain rfl := List.append_cancel_left htail
  refine hformed.next fun d hd => ?_
  cases later with
  | nil =>
    obtain rfl : c = d := Option.some.inj hd
    exact hc rfl
  | cons d' later => exact hends d hd

/-- What the last symbol of lexemes is tells whether an operand has just ended. -/
theorem leavesAll_eq (afterOperand : Bool) (lexemes : List Lexeme) :
    leavesAll afterOperand lexemes =
      ((lexemes.filterMap symbol?).getLast?.map (·.kind.endsOperand)).getD afterOperand := by
  induction lexemes generalizing afterOperand with
  | nil => rfl
  | cons lexeme lexemes ih =>
    rw [leavesAll, List.foldl_cons, ← leavesAll, ih]
    cases hk : lexeme.kind with
    | none => simp [leaves, symbol?, hk]
    | some kind =>
      have hx : lexeme.symbol? = some ⟨kind, String.ofList lexeme.text⟩ := by simp [symbol?, hk]
      rw [List.filterMap_cons_some hx, List.getLast?_cons]
      cases (lexemes.filterMap symbol?).getLast? <;> simp [leaves, hk]

/-- An operand has just ended if the last token is one that can end an operand. -/
theorem leavesAll_iff {lexemes : List Lexeme} :
    leavesAll false lexemes = true ↔ ∃ t ∈ (tokensFrom .start lexemes).getLast?,
      t.kind ∈ [.ident, .number, .rpar, .rsqb, .rbrace] := by
  have hends (kind : Kind) :
      kind.endsOperand = true ↔ kind ∈ [.ident, .number, .rpar, .rsqb, .rbrace] := by
    cases kind <;> decide
  rw [leavesAll_eq, ← map_symbol_tokensFrom .start, List.getLast?_map]
  cases (tokensFrom .start lexemes).getLast? with
  | none => simp
  | some t => simp [← hends]

/-- A text that is cut to its end goes on as another one, if the first character of
that one does not continue the last lexeme. -/
theorem Cuts.append_reads {passed rest : List Char} {c : Char} {more : List Lexeme}
    (h : Cuts afterOperand passed lexemes)
    (hlast : ∀ lexeme ∈ lexemes.getLast?, ∀ operand, continues operand lexeme c = false)
    (hrest : Reads (leavesAll afterOperand lexemes) (c :: rest) more stop) :
    Reads afterOperand (passed ++ c :: rest) (lexemes ++ more) stop := by
  induction h with
  | nil => exact hrest
  | @cons afterOperand lexeme later lexemes hnext hcuts ih =>
    rw [List.append_assoc]
    refine .cons (next_append hnext fun hlater => ?_) (ih (fun other hother => ?_) hrest)
    · subst hlater
      obtain rfl := cuts_nil_iff.1 hcuts
      exact hlast lexeme rfl afterOperand
    · exact hlast other (by simp [List.getLast?_cons, Option.mem_def.1 hother])

/-- What tokenizing answers for a text that is read: its tokens and the end token, or
the character at which it stops. -/
def answer (lexemes : List Lexeme) : Option (Char × Obstacle) → Except LexError (List Token)
  | none => .ok (tokensFrom .start lexemes ++
      [⟨.eof, Token.endText, .ofText (lexemes.flatMap span)⟩])
  | some (c, obstacle) =>
    .error ⟨c, (lexemes.flatMap span).length, .ofText (lexemes.flatMap span), obstacle⟩

end Lexeme

namespace Scanner

open Lexeme

/-- Scanning to the end goes on after a lexeme. -/
theorem scanAll_of_scan_ok {s t : Scanner} (hrest : s.rest ≠ []) (h : s.scan = .ok () t) :
    s.scanAll = t.scanAll := by
  rw [scanAll, if_neg hrest]
  split
  · rename_i u hscan
    cases hscan.symm.trans h
    rfl
  · rename_i hscan
    cases hscan.symm.trans h

/-- Scanning to the end fails if the next lexeme cannot be cut off. -/
theorem scanAll_of_scan_error {s t : Scanner} {e : LexError} (hrest : s.rest ≠ [])
    (h : s.scan = .error e t) : s.scanAll = .error e t := by
  rw [scanAll, if_neg hrest]
  split
  · rename_i hscan
    cases hscan.symm.trans h
  · rename_i hscan
    cases hscan.symm.trans h
    rfl

/-- Scanning fails at a character that starts no lexeme. -/
theorem scan_of_next_error {s : Scanner} {c : Char} {rest : List Char} {obstacle : Obstacle}
    (hrest : s.rest = c :: rest) (h : next s.afterOperand (c :: rest) = .error obstacle) :
    ∃ t, s.scan = .error ⟨c, s.offset, s.position, obstacle⟩ t := by
  have hpeek : s.peek 0 = c := by simp [peek, hrest]
  rw [scan, hrest, h]
  cases obstacle with
  | unrecognized => exact ⟨_, by rw [settle, failure, hpeek]⟩
  | unterminated => exact ⟨_, by rw [settle, failure, hpeek]⟩

/-- Scanning to the end fails at the character at which reading the text stops. -/
theorem scanAll_of_reads {lexemes : List Lexeme} {c : Char} {obstacle : Obstacle} {s : Scanner}
    (h : Reads s.afterOperand s.rest lexemes (some (c, obstacle))) :
    ∃ t, s.scanAll = .error ⟨c, s.offset + (lexemes.flatMap span).length,
      s.position.after (lexemes.flatMap span), obstacle⟩ t := by
  generalize hoperand : s.afterOperand = afterOperand at h
  generalize hrest : s.rest = text at h
  generalize hstop : some (c, obstacle) = stop at h
  induction h generalizing s with
  | finished => cases hstop
  | stopped hnext =>
    obtain ⟨rfl, rfl⟩ := Prod.mk.inj (Option.some.inj hstop)
    subst hoperand
    obtain ⟨t, hscan⟩ := scan_of_next_error hrest hnext
    exact ⟨t, scanAll_of_scan_error (by simp [hrest]) hscan⟩
  | @cons _ lexeme later lexemes _ hnext _ ih =>
    subst hoperand
    have hne : s.rest ≠ [] := by
      rw [hrest]
      exact List.append_ne_nil_of_left_ne_nil (span_ne_nil hnext) later
    have hscan : s.scan = .ok () (s.take lexeme) :=
      scan_eq_ok_iff.2 ⟨lexeme, by rwa [hrest], rfl⟩
    have hpassed := take_eq hrest
    obtain ⟨t, ht⟩ := ih (afterOperand_take s lexeme) (by rw [hpassed]) hstop
    refine ⟨t, ?_⟩
    rw [scanAll_of_scan_ok hne hscan, ht, hpassed]
    simp [Nat.add_assoc]

end Scanner

open Lexeme

/-- Tokenizing a text answers what its reading tells. -/
theorem tokenize_of_reads {source : String} {lexemes : List Lexeme}
    {stop : Option (Char × Obstacle)} (h : Reads false source.toList lexemes stop) :
    tokenize source = answer lexemes stop := by
  cases stop with
  | none =>
    have hcuts := h.cuts
    refine tokenize_eq_ok_iff.2 ⟨lexemes, hcuts, ?_⟩
    rw [Position.start_after, hcuts.formed.1]
  | some found =>
    obtain ⟨c, obstacle⟩ := found
    obtain ⟨t, ht⟩ := Scanner.scanAll_of_reads (s := .ofSource source) h
    rw [tokenize, ht]
    simp [answer, Scanner.ofSource, Position.start_after]

end Scriptlet
