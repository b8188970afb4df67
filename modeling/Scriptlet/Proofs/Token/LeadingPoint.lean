import Scriptlet.Proofs.Token.Reading

/-!
# Numbers that start with a point

Where no operand has just ended, a point before a digit starts a number. It is
read as the number with a zero before the point, and the rest of the text is
then read in the same way.
-/

namespace Scriptlet

open Character Lexeme

/-- What tokenizing answers, without the places in the text. -/
def withoutPlaces : Except LexError (List Token) → Except (Char × String) (List Symbol)
  | .ok tokens => .ok (tokens.map Token.symbol)
  | .error e => .error (e.char, e.reason)

namespace Lexeme

variable {lexemes : List Lexeme} {stop : Option (Char × Obstacle)}

/-- Apart from places, an answer is told by the symbols and the character at which
reading stops. -/
theorem withoutPlaces_answer_congr {others : List Lexeme}
    (h : lexemes.filterMap symbol? = others.filterMap symbol?) :
    withoutPlaces (answer lexemes stop) = withoutPlaces (answer others stop) := by
  cases stop with
  | none =>
    simp only [answer, withoutPlaces, List.map_append, map_symbol_tokensFrom, h]
    rfl
  | some found => rfl

/-- A lexeme that ends no operand is not continued by what is neither a separator nor
a letter, unless it is a point. -/
theorem continues_eq_false_of_leaves {lexeme : Lexeme} {afterOperand : Bool} {c : Char}
    (h : lexeme.leaves afterOperand = false) (hseparator : isSeparator c = false)
    (hletter : isLetter c = false) (hdot : lexeme.kind = some .dot → isDigit c = false)
    (operand : Bool) : continues operand lexeme c = false := by
  unfold continues
  cases hk : lexeme.kind with
  | none => exact hseparator
  | some kind =>
    have hends : kind.endsOperand = false := by simpa [leaves, hk] using h
    cases kind with
    | number => simp [Kind.endsOperand] at hends
    | dot => simp [hdot hk]
    | ident | letWord | constWord | fnWord => exact hletter
    | _ => rfl

/-- A lexeme that is a point consists of it. -/
theorem Formed.span_of_dot {lexeme : Lexeme} {afterOperand : Bool}
    (h : Formed afterOperand lexeme) (hkind : lexeme.kind = some .dot) : lexeme.span = ['.'] := by
  cases h with
  | blank => simp at hkind
  | number => simp at hkind
  | @punctuation c kind hc =>
    obtain rfl : kind = .dot := Option.some.inj hkind
    have hall : ∀ mark ∈ punctuationMarks, mark.2 = .dot → mark.1 = '.' := by decide
    exact congrArg (fun c => [c]) (hall (c, .dot) (mem_punctuationMarks hc) rfl)
  | operator => simp [single] at hkind
  | string => simp at hkind
  | @word span =>
    rcases wordKind_cases span with h | h | h | h <;> simp [h] at hkind

/-- After a text that ends with neither an operand nor a point, a number starts at a
digit, and at a point. -/
theorem Cuts.continues_last {text : List Char} (h : Cuts false text lexemes)
    (hoperand : leavesAll false lexemes = false) (hdot : text.getLast? ≠ some '.') {c : Char}
    (hc : c = '.' ∨ isDigit c = true) :
    ∀ lexeme ∈ lexemes.getLast?, ∀ operand, continues operand lexeme c = false := by
  intro lexeme hlexeme
  obtain ⟨passed, rfl⟩ := List.getLast?_eq_some_iff.1 hlexeme
  rw [leavesAll, List.foldl_append, List.foldl_cons, List.foldl_nil] at hoperand
  obtain ⟨hseparator, hletter⟩ : isSeparator c = false ∧ isLetter c = false := by
    rcases hc with rfl | hc
    · decide
    · refine ⟨Bool.eq_false_iff.2 fun hs => ?_, isLetter_of_isDigit hc⟩
      rw [isDigit_of_isSeparator hs] at hc
      exact Bool.noConfusion hc
  refine continues_eq_false_of_leaves hoperand hseparator hletter fun hkind => ?_
  obtain ⟨before, hformed⟩ := h.formed.2 lexeme (by simp)
  refine absurd ?_ hdot
  rw [h.formed.1]
  simp [hformed.span_of_dot hkind]

/-- A text that starts with a point and a digit is read as the one with a zero before
the point: both numbers end with the same digits and leave the same rest. -/
theorem exists_reads_point {d : Char} (hd : isDigit d = true) (text : List Char) :
    ∃ first second more stop, first.symbol? = second.symbol? ∧
      Reads false ('.' :: d :: text) (first :: more) stop ∧
      Reads false ('0' :: '.' :: d :: text) (second :: more) stop := by
  let fraction := (d :: text).takeWhile isDigit
  let rest := (d :: text).dropWhile isDigit
  have hsplit : fraction ++ rest = d :: text := List.takeWhile_append_dropWhile
  have hfraction : ∀ c ∈ fraction, isDigit c = true := forall_mem_takeWhile isDigit (d :: text)
  have hne : fraction ≠ [] := by simp [fraction, hd]
  obtain ⟨more, stop, hmore⟩ := exists_reads true rest
  have hreads (whole : List Char) (hwhole : whole = [] ∨ whole = ['0']) :
      Reads false (whole ++ '.' :: d :: text)
        (⟨some .number, whole ++ '.' :: fraction, completeNumber (whole ++ '.' :: fraction)⟩ ::
          more) stop := by
    have hnumeral : Numeral false (whole ++ '.' :: fraction) := by
      refine .point ?_ hfraction (.inr ⟨rfl, hne⟩)
      rcases hwhole with rfl | rfl
      · simp
      · simp [show isDigit '0' = true by decide]
    have htext : whole ++ '.' :: d :: text = (whole ++ '.' :: fraction) ++ rest := by
      simp [hsplit]
    rw [htext]
    refine .cons ((Formed.number hnumeral).next fun c hc => ?_) hmore
    simp [continues, head?_dropWhile hc]
  refine ⟨_, _, more, stop, ?_, hreads [] (.inl rfl), hreads ['0'] (.inr rfl)⟩
  simp [symbol?, completeNumber]

end Lexeme

/-- After a text that ends with neither an operand nor a point, a number means the
same with its zero before the point and without it: the tokens are the same apart
from their places, or the text fails at the same character for the same reason. -/
theorem tokenize_leading_point {p s : String} {d : Char} {tokens : List Token} {last : Token}
    (hp : tokenize p = .ok (tokens ++ [last]))
    (hoperand : ∀ t ∈ tokens.getLast?, t.kind ∉ [.ident, .number, .rpar, .rsqb, .rbrace])
    (hdot : p.toList.getLast? ≠ some '.') (hd : isDigit d = true) :
    withoutPlaces (tokenize (p ++ "." ++ String.singleton d ++ s)) =
      withoutPlaces (tokenize (p ++ "0." ++ String.singleton d ++ s)) := by
  obtain ⟨lexemes, hcuts, htokens⟩ := tokenize_eq_ok_iff.1 hp
  obtain ⟨rfl, -⟩ := List.append_inj' htokens rfl
  have hleaves : leavesAll false lexemes = false := by
    rw [Bool.eq_false_iff, Ne, leavesAll_iff]
    rintro ⟨t, ht, hkind⟩
    exact hoperand t ht hkind
  obtain ⟨first, second, more, stop, hsame, hfirst, hsecond⟩ := exists_reads_point hd s.toList
  rw [← hleaves] at hfirst hsecond
  have hpoint : Reads false (p ++ "." ++ String.singleton d ++ s).toList
      (lexemes ++ first :: more) stop := by
    simpa using hcuts.append_reads (hcuts.continues_last hleaves hdot (.inl rfl)) hfirst
  have hzero : Reads false (p ++ "0." ++ String.singleton d ++ s).toList
      (lexemes ++ second :: more) stop := by
    have hdigit : isDigit '0' = true := by decide
    simpa using hcuts.append_reads (hcuts.continues_last hleaves hdot (.inr hdigit)) hsecond
  rw [tokenize_of_reads hpoint, tokenize_of_reads hzero]
  refine withoutPlaces_answer_congr ?_
  cases hx : second.symbol? with
  | none => simp [hsame, hx]
  | some x => simp [hsame, hx]

/-- A number before the end of a text and one before an open quote, both after an
operator. -/
theorem tokenize_leading_point_after_operator :
    let tokens : List Token := [⟨.ident, "a", ⟨1, 1⟩⟩, ⟨.operator, "-", ⟨1, 2⟩⟩]
    tokenize "a-" = .ok (tokens ++ [⟨.eof, Token.endText, ⟨1, 3⟩⟩]) ∧
      withoutPlaces (tokenize ("a-" ++ "." ++ String.singleton '5' ++ ".5")) =
        withoutPlaces (tokenize ("a-" ++ "0." ++ String.singleton '5' ++ ".5")) ∧
      withoutPlaces (tokenize ("a-" ++ "." ++ String.singleton '5' ++ "'")) =
        withoutPlaces (tokenize ("a-" ++ "0." ++ String.singleton '5' ++ "'")) := by
  intro tokens
  have htokens : tokenize "a-" = .ok (tokens ++ [⟨.eof, Token.endText, ⟨1, 3⟩⟩]) := by
    decide +kernel
  have hoperand : ∀ t ∈ tokens.getLast?, t.kind ∉ [.ident, .number, .rpar, .rsqb, .rbrace] := by
    intro t ht
    obtain rfl : (⟨.operator, "-", ⟨1, 2⟩⟩ : Token) = t := Option.some.inj ht
    decide
  exact ⟨htokens, tokenize_leading_point htokens hoperand (by decide) (by decide),
    tokenize_leading_point htokens hoperand (by decide) (by decide)⟩

end Scriptlet
