import Scriptlet.Proofs.Token.Reading

/-!
# What a lexical error tells

A text that is no sequence of tokens has a first character at which nothing
can be cut off. Either this character is in none of the classes that tokens
are made of, and then whatever follows it does not matter: every text that
starts in the same way fails in the same way. Or it is a quote, and in what
follows every other such quote is taken along by a backslash. In both cases
the text before the character is a sequence of tokens.
-/

namespace Scriptlet

open Character Lexeme

namespace Lexeme

/-- Whether each backslash in a text takes a character of the text along, so
that none is left to take along what follows. -/
inductive Paired : List Char → Prop
  | nil : Paired []
  | escape {c : Char} {body : List Char} : Paired body → Paired ('\\' :: c :: body)
  | plain {c : Char} {body : List Char} : c ≠ '\\' → Paired body → Paired (c :: body)

/-- Whether a quote occurs in a text and is not taken along by a backslash. -/
def Closes (quote : Char) (text : List Char) : Prop :=
  ∃ body rest, text = body ++ quote :: rest ∧ Paired body

section Closes

variable {quote c : Char} {text : List Char}

/-- Nothing closes a quote at the end of the text. -/
theorem not_closes_nil : ¬ Closes quote [] := by
  rintro ⟨body, rest, htext, -⟩
  simp at htext

/-- A quote closes another one at once. -/
theorem closes_self : Closes quote (quote :: text) :=
  ⟨[], text, rfl, .nil⟩

/-- A backslash at the end closes nothing. -/
theorem not_closes_backslash (hquote : quote ≠ '\\') : ¬ Closes quote ['\\'] := by
  rintro ⟨body, rest, htext, -⟩
  cases body with
  | nil => exact hquote (List.cons.inj htext).1.symm
  | cons d body => simp at htext

/-- What a backslash takes along closes nothing. -/
theorem closes_escape (hquote : quote ≠ '\\') :
    Closes quote ('\\' :: c :: text) ↔ Closes quote text := by
  constructor
  · rintro ⟨body, rest, htext, hbody⟩
    cases hbody with
    | nil => exact absurd (List.cons.inj htext).1.symm hquote
    | escape hbody =>
      simp only [List.cons_append, List.cons.injEq, true_and] at htext
      exact ⟨_, rest, htext.2, hbody⟩
    | plain hne _ => exact absurd (List.cons.inj htext).1.symm hne
  · rintro ⟨body, rest, rfl, hbody⟩
    exact ⟨'\\' :: c :: body, rest, rfl, .escape hbody⟩

/-- Any other character closes nothing. -/
theorem closes_plain (hquote : c ≠ quote) (hback : c ≠ '\\') :
    Closes quote (c :: text) ↔ Closes quote text := by
  constructor
  · rintro ⟨body, rest, htext, hbody⟩
    cases hbody with
    | nil => exact absurd (List.cons.inj htext).1 hquote
    | escape _ => exact absurd (List.cons.inj htext).1 hback
    | plain _ hbody => exact ⟨_, rest, (List.cons.inj htext).2, hbody⟩
  · rintro ⟨body, rest, rfl, hbody⟩
    exact ⟨c :: body, rest, rfl, .plain hback hbody⟩

/-- A string has no body exactly if nothing closes its quote. -/
theorem stringBody?_eq_none_iff (hquote : quote ≠ '\\') :
    stringBody? quote text = none ↔ ¬ Closes quote text := by
  fun_induction stringBody? quote text with
  | case1 => simp [not_closes_nil]
  | case2 rest => simp [closes_self]
  | case3 => simp [not_closes_backslash hquote]
  | case4 _ d rest ih => simpa [closes_escape hquote] using ih
  | case5 c rest hne hback ih => simpa [closes_plain hne hback] using ih

end Closes

/-- Whether no token can hold a character, unless it is a string. -/
structure Outside (c : Char) : Prop where
  /-- It separates no tokens. -/
  separator : isSeparator c = false
  /-- It is no digit. -/
  digit : isDigit c = false
  /-- It is no letter. -/
  letter : isLetter c = false
  /-- It is no punctuation mark. -/
  punctuation : punctuation? c = none
  /-- It is no operator. -/
  operator : isOperator c = false
  /-- It opens no string. -/
  quote : isQuote c = false

/-- A character of no class starts no lexeme, and nothing else fails so. -/
theorem next_eq_unrecognized_iff {afterOperand : Bool} {c : Char} {rest : List Char} :
    next afterOperand (c :: rest) = .error .unrecognized ↔ Outside c := by
  constructor
  · intro h
    simp only [next] at h
    repeat' split at h
    all_goals simp only [reduceCtorEq, Except.error.injEq] at h
    rename_i hseparator hnumber _ hpunctuation hoperator hquote hletter
    rw [Bool.not_eq_true] at hseparator hnumber hoperator hquote hletter
    exact ⟨hseparator, (Bool.or_eq_false_iff.1 hnumber).1, hletter, hpunctuation, hoperator, hquote⟩
  · intro h
    have hnumber := startsNumber_eq_false h.digit h.punctuation afterOperand rest
    simp [next, h.separator, hnumber, h.punctuation, h.operator, h.quote, h.letter]

/-- Cutting fails at a quote only if nothing closes it. -/
theorem of_next_eq_unterminated {afterOperand : Bool} {c : Char} {rest : List Char}
    (h : next afterOperand (c :: rest) = .error .unterminated) :
    isQuote c = true ∧ ¬ Closes c rest := by
  simp only [next] at h
  repeat' split at h
  all_goals simp only [reduceCtorEq, Except.error.injEq] at h
  rename_i hquote _ hstring
  have hback := (mem_marks_of_isQuote hquote).2.2.2
  exact ⟨hquote, (stringBody?_eq_none_iff hback).1 (Option.map_eq_none_iff.1 hstring)⟩

/-- A character of no class continues no lexeme. -/
theorem Outside.continues_eq_false {c : Char} (h : Outside c) (afterOperand : Bool)
    (lexeme : Lexeme) : continues afterOperand lexeme c = false := by
  have hpoint : c ≠ '.' := by
    rintro rfl
    cases h.punctuation
  unfold continues
  split <;> simp [h.separator, h.digit, h.letter, hpoint]

end Lexeme

/-- A text that starts with the tokens of another one and then with a character of
no class fails at this character. -/
theorem tokenize_of_outside {before : List Char} {c : Char} {lexemes : List Lexeme}
    (hcuts : Cuts false before lexemes) (hc : Outside c) (after : List Char) :
    tokenize (String.ofList (before ++ c :: after)) =
      .error ⟨c, before.length, .ofText before, .unrecognized⟩ := by
  have hnext : next (leavesAll false lexemes) (c :: after) = .error .unrecognized :=
    next_eq_unrecognized_iff.2 hc
  have hreads : Reads false (before ++ c :: after) (lexemes ++ []) (some (c, .unrecognized)) :=
    hcuts.append_reads (fun lexeme _ operand => hc.continues_eq_false operand lexeme)
      (.stopped hnext)
  rw [← String.toList_ofList (l := before ++ c :: after)] at hreads
  rw [tokenize_of_reads hreads, List.append_nil, answer, ← hcuts.formed.1]

/-- A text that is no sequence of tokens fails at a character of it, and the place
of this character is told. What stands before the character is a sequence of
tokens. The character is in no class, and then every text that starts in the same
way fails in the same way; or it is a quote that nothing after it closes. -/
theorem tokenize_error_at_first_fault {source : String} {e : LexError}
    (h : tokenize source = .error e) :
    source.toList[e.offset]? = some e.char ∧
      e.position = .ofText (source.toList.take e.offset) ∧
      (∃ tokens, tokenize (String.ofList (source.toList.take e.offset)) = .ok tokens) ∧
      (e.reason = "Unrecognized character" ∧ Outside e.char ∧
          (∀ other : String, source.toList.take (e.offset + 1) <+: other.toList →
            tokenize other = .error e) ∨
        e.reason = "Unterminated string" ∧ isQuote e.char = true ∧
          ¬ Closes e.char (source.toList.drop (e.offset + 1))) := by
  obtain ⟨before, c, after, lexemes, hsource, hcuts, hstop, he⟩ := exists_cuts_of_tokenize_error h
  have hjoined : source.toList = (before ++ [c]) ++ after := by simp [hsource]
  have htake : source.toList.take before.length = before := by simp [hsource]
  have hshown : source.toList.take (before.length + 1) = before ++ [c] :=
    hjoined ▸ List.take_left' (by simp)
  have hdrop : source.toList.drop (before.length + 1) = after :=
    hjoined ▸ List.drop_left' (by simp)
  obtain ⟨char, offset, position, obstacle⟩ := e
  obtain ⟨rfl, rfl, rfl⟩ : char = c ∧ offset = before.length ∧ position = .ofText before := by
    simpa using he
  have htokens : ∃ tokens, tokenize (String.ofList before) = .ok tokens :=
    ⟨_, tokenize_eq_ok_iff.2 ⟨lexemes, by rwa [String.toList_ofList], rfl⟩⟩
  dsimp only at hstop ⊢
  rw [htake, hshown, hdrop]
  refine ⟨by simp [hsource], rfl, htokens, ?_⟩
  cases obstacle with
  | unrecognized =>
    have hc : Outside char := next_eq_unrecognized_iff.1 hstop
    refine .inl ⟨rfl, hc, fun other hother => ?_⟩
    obtain ⟨more, hmore⟩ := hother
    have hfails := tokenize_of_outside hcuts hc more
    rw [List.append_assoc] at hmore
    have hsame : other = String.ofList (before ++ char :: more) := by
      rw [← String.ofList_toList (s := other), ← hmore]
      rfl
    rw [hsame, hfails]
  | unterminated => exact .inr ⟨rfl, of_next_eq_unterminated hstop⟩

/-- A quote on a second line that only an escaped quote follows. -/
theorem tokenize_error_at_open_quote :
    let source := "a.\n'b\\'"
    let e : LexError := ⟨Text.singleQuote, 3, ⟨2, 1⟩, .unterminated⟩
    tokenize source = .error e ∧ source.toList[e.offset]? = some e.char ∧
      e.position = .ofText (source.toList.take e.offset) ∧
      (∃ tokens, tokenize (String.ofList (source.toList.take e.offset)) = .ok tokens) ∧
      ¬ Closes e.char (source.toList.drop (e.offset + 1)) := by
  intro source e
  have herror : tokenize source = .error e := by decide +kernel
  obtain ⟨hchar, hposition, htokens, ⟨hreason, -⟩ | ⟨-, -, hopen⟩⟩ :=
    tokenize_error_at_first_fault herror
  · have hne : e.reason ≠ "Unrecognized character" := by decide
    exact absurd hreason hne
  · exact ⟨herror, hchar, hposition, htokens, hopen⟩

end Scriptlet
