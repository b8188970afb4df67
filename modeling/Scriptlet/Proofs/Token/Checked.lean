import Scriptlet.Proofs.Fault
import Scriptlet.Proofs.Token.Numeral

/-!
# Scanning character by character

A source text can be scanned by looking at the next character and passing it.
Past the end of the text there is nothing to pass, although looking there shows
the null character. A scanner that works in this way never passes a character
that is not there, and none of its loops stands still. It finds the same
tokens, and fails in the same places, as cutting off whole lexemes does.
-/

namespace Scriptlet

open Character Lexeme

/-- The scanner after a run of characters, with what comes after it. -/
def Scanner.past (s : Scanner) (span rest : List Char) : Scanner :=
  ⟨rest, s.offset + span.length, s.position.after span, s.found⟩

namespace Checked

variable {α β : Type}

/-- Whether the text has ended. -/
def atEnd : Checked LexError Scanner Bool :=
  fun s => .ok s.rest.isEmpty s

/-- The next character, which is not passed; the null character at the end. -/
def peek : Checked LexError Scanner Char :=
  fun s => .ok (s.peek 0) s

/-- Passes the next character. -/
def advance : Checked LexError Scanner Char :=
  fun s =>
    match s.advance? with
    | some (c, t) => .ok c t
    | none => fault .character s

/-- Adds a token that starts at the given place. -/
def emit (kind : Kind) (position : Position) (text : List Char) : Checked LexError Scanner Unit :=
  fun s => .ok () (s.emit kind text position)

/-- Repeats a step until it answers with a result, from a given scanner on. -/
def loopFrom (step : α → Checked LexError Scanner (α ⊕ β)) (a : α) (s : Scanner) :
    EStateM.Result (Fault ⊕ LexError) Scanner β :=
  match step a s with
  | .error e t => .error e t
  | .ok (.inr b) t => .ok b t
  | .ok (.inl a) t => if t.rest.length < s.rest.length then loopFrom step a t else fault .round t
termination_by s.rest.length

/-- Repeats a step until it answers with a result. -/
def loop (step : α → Checked LexError Scanner (α ⊕ β)) (a : α) : Checked LexError Scanner β :=
  loopFrom step a

/-- One more character of a class, if there is one. -/
def runStep (p : Char → Bool) (value : List Char) :
    Checked LexError Scanner (List Char ⊕ List Char) := do
  if p (← peek) then return .inl (value ++ [← advance])
  else return .inr value

/-- One more character of a number, if there is one. The flag says whether the
point has been seen. -/
def numberStep (state : List Char × Bool) :
    Checked LexError Scanner ((List Char × Bool) ⊕ List Char) := do
  let c ← peek
  if isDigit c then return .inl (state.1 ++ [← advance], state.2)
  else if c = '.' ∧ state.2 = false then
    let value := if state.1 = [] then ['0'] else state.1
    return .inl (value ++ [← advance], true)
  else return .inr state.1

/-- One more character before the closing quote, with the one after it if it is
a backslash. -/
def stringStep (quote : Char) (value : List Char) :
    Checked LexError Scanner (List Char ⊕ List Char) := do
  if (← atEnd) || (← peek) == quote then return .inr value
  else if (← peek) = '\\' then
    let c ← advance
    if ← atEnd then return .inl (value ++ [c])
    else return .inl (value ++ [c, ← advance])
  else return .inl (value ++ [← advance])

/-- A string, from its opening quote on. -/
def string (start : Scanner) : Checked LexError Scanner Unit := do
  let quote ← advance
  let value ← loop (stringStep quote) []
  if ← atEnd then throw (.inr ⟨quote, start.offset, start.position, .unterminated⟩)
  else
    let _ ← advance
    emit .string start.position value

/-- Scans the next lexeme. -/
def scan : Checked LexError Scanner Unit := do
  let s ← get
  let c := s.peek 0
  if isSeparator c then
    let _ ← loop (runStep isSeparator) []
  else if isDigit c || (c == '.' && isDigit (s.peek 1) && !s.afterOperand) then
    emit .number s.position (← loop numberStep ([], false))
  else
    match punctuation? c with
    | some kind => emit kind s.position [← advance]
    | none =>
      if isOperator c then emit .operator s.position [← advance]
      else if isQuote c then string s
      else if isLetter c then
        let word ← loop (runStep isLetter) []
        emit (wordKind word) s.position word
      else throw (.inr (s.failure .unrecognized))

/-- One more lexeme, if there is one. -/
def scanStep (_ : Unit) : Checked LexError Scanner (Unit ⊕ Unit) := do
  if ← atEnd then return .inr ()
  else return .inl (← scan)

/-- Scans to the end of the text and adds the end token. -/
def scanAll : Checked LexError Scanner Unit := do
  loop scanStep ()
  let s ← get
  emit .eof s.position Token.endText.toList

/-- The tokens of a source text, the end token last. -/
def tokenize (source : String) : Except (Fault ⊕ LexError) (List Token) :=
  match scanAll (.ofSource source) with
  | .ok () s => .ok s.tokens
  | .error e _ => .error e

section Loops

variable {step : α → Checked LexError Scanner (α ⊕ β)} {a a' : α} {b : β} {s t : Scanner}

/-- A loop ends with the result of its last round. -/
theorem loop_of_inr (h : step a s = .ok (.inr b) t) : loop step a s = .ok b t := by
  rw [loop, loopFrom, h]

/-- A loop goes on after a round that passes something. -/
theorem loop_of_inl (h : step a s = .ok (.inl a') t) (hlt : t.rest.length < s.rest.length) :
    loop step a s = loop step a' t := by
  rw [loop, loop, loopFrom, h]
  dsimp only
  rw [if_pos hlt]

/-- A loop fails where a round fails. -/
theorem loop_of_error {e : Fault ⊕ LexError} (h : step a s = .error e t) :
    loop step a s = .error e t := by
  rw [loop, loopFrom, h]

end Loops

section Characters

variable {s : Scanner} {c : Char} {rest : List Char}

/-- A choice between computations is made before they run. -/
theorem ite_apply {q : Prop} [Decidable q] {x y : Checked LexError Scanner α} :
    (if q then x else y) s = if q then x s else y s := by
  by_cases h : q
  · rw [if_pos h, if_pos h]
  · rw [if_neg h, if_neg h]

/-- Looking at the next character changes nothing. -/
theorem peek_bind {f : Char → Checked LexError Scanner β} : (peek >>= f) s = f (s.peek 0) s :=
  rfl

/-- Asking whether the text has ended changes nothing. -/
theorem atEnd_bind {f : Bool → Checked LexError Scanner β} :
    (atEnd >>= f) s = f s.rest.isEmpty s :=
  rfl

/-- A character that is there is passed. -/
theorem advance_bind {f : Char → Checked LexError Scanner β} (h : s.rest = c :: rest) :
    (advance >>= f) s = f c (s.past [c] rest) := by
  refine bind_of_ok ?_
  simp [advance, Scanner.advance?, Scanner.skip, Scanner.past, h]

/-- The next character of a text that has not ended. -/
theorem peek_of_cons (h : s.rest = c :: rest) : s.peek 0 = c := by
  simp [Scanner.peek, h]

/-- What neither the next character nor the null character is, is not found by
looking. -/
theorem peek_eq_false {p : Char → Bool} (hnull : p '\x00' = false)
    (h : ∀ c ∈ s.rest.head?, p c = false) : p (s.peek 0) = false := by
  cases hrest : s.rest with
  | nil => simpa [Scanner.peek, hrest] using hnull
  | cons c rest => simpa [Scanner.peek, hrest] using h c (by rw [hrest]; rfl)

/-- Nothing is passed to stay where one is. -/
theorem past_nil (h : s.rest = rest) : s.past [] rest = s := by
  obtain ⟨text, offset, position, found⟩ := s
  obtain rfl := h
  rfl

/-- Runs are passed one after the other. -/
theorem past_past (s : Scanner) (first second middle rest : List Char) :
    (s.past first middle).past second rest = s.past (first ++ second) rest := by
  simp [Scanner.past, Nat.add_assoc]

/-- A character is left behind. -/
theorem past_rest_lt (h : s.rest = c :: rest) : (s.past [c] rest).rest.length < s.rest.length := by
  simp [Scanner.past, h]

end Characters

section Runs

variable {s : Scanner} {p : Char → Bool} {span rest : List Char}

/-- A run of characters of a class is passed to its end. -/
theorem runStep_loop (hnull : p '\x00' = false) (hs : s.rest = span ++ rest)
    (hspan : ∀ c ∈ span, p c = true) (hrest : ∀ c ∈ rest.head?, p c = false)
    (value : List Char) : loop (runStep p) value s = .ok (value ++ span) (s.past span rest) := by
  induction span generalizing s value with
  | nil =>
    rw [List.nil_append] at hs
    rw [List.append_nil, past_nil hs]
    refine loop_of_inr ?_
    rw [runStep, peek_bind, peek_eq_false hnull (by rwa [hs]), ite_apply, if_neg (by simp)]
    rfl
  | cons c span ih =>
    have hc : p c = true := hspan c (by simp)
    have hstep : runStep p value s = .ok (.inl (value ++ [c])) (s.past [c] (span ++ rest)) := by
      rw [runStep, peek_bind, peek_of_cons hs, ite_apply, if_pos hc, advance_bind hs]
      rfl
    rw [loop_of_inl hstep (past_rest_lt hs), ih rfl (fun d hd => hspan d (by simp [hd])),
      past_past, List.append_assoc]
    rfl

/-- The digits of a number are passed. -/
theorem numberStep_digits (hs : s.rest = span ++ rest) (hspan : ∀ c ∈ span, isDigit c = true)
    (value : List Char) (point : Bool) :
    loop numberStep (value, point) s =
      loop numberStep (value ++ span, point) (s.past span rest) := by
  induction span generalizing s value with
  | nil =>
    rw [List.nil_append] at hs
    rw [List.append_nil, past_nil hs]
  | cons c span ih =>
    have hc : isDigit c = true := hspan c (by simp)
    have hstep : numberStep (value, point) s =
        .ok (.inl (value ++ [c], point)) (s.past [c] (span ++ rest)) := by
      rw [numberStep, peek_bind, peek_of_cons hs, ite_apply, if_pos hc, advance_bind hs]
      rfl
    rw [loop_of_inl hstep (past_rest_lt hs), ih rfl (fun d hd => hspan d (by simp [hd])),
      past_past, List.append_assoc]
    rfl

/-- The first point of a number is passed, and completed by a zero. -/
theorem numberStep_point (hs : s.rest = '.' :: rest) (value : List Char) :
    loop numberStep (value, false) s =
      loop numberStep ((if value = [] then ['0'] else value) ++ ['.'], true)
        (s.past ['.'] rest) := by
  have hdigit : ¬isDigit '.' = true := by decide
  refine loop_of_inl ?_ (past_rest_lt hs)
  rw [numberStep, peek_bind, peek_of_cons hs, ite_apply, if_neg hdigit, ite_apply,
    if_pos ⟨rfl, rfl⟩, advance_bind hs]
  rfl

/-- A number ends where the next character does not continue it. -/
theorem numberStep_stop {point : Bool}
    (h : ∀ c ∈ s.rest.head?, (isDigit c || (c == '.' && !point)) = false) (value : List Char) :
    loop numberStep (value, point) s = .ok value s := by
  have hnull : (isDigit '\x00' || ('\x00' == '.' && !point)) = false := by
    cases point <;> decide
  have hpeek := peek_eq_false (p := fun c => isDigit c || (c == '.' && !point)) hnull h
  rw [Bool.or_eq_false_iff] at hpeek
  refine loop_of_inr ?_
  rw [numberStep, peek_bind, ite_apply, if_neg (by simp [hpeek.1]), ite_apply,
    if_neg (by simpa using hpeek.2)]
  rfl

/-- A numeral is passed to its end, and completed. -/
theorem number_loop {afterOperand : Bool} (hspan : Numeral afterOperand span)
    (hs : s.rest = span ++ rest)
    (hrest : ∀ c ∈ rest.head?, (isDigit c || (c == '.' && !span.contains '.')) = false) :
    loop numberStep ([], false) s = .ok (completeNumber span) (s.past span rest) := by
  have hend : ∀ {value : List Char} {point : Bool}, span.contains '.' = point →
      loop numberStep (value, point) (s.past span rest) = .ok value (s.past span rest) :=
    fun hpoint => numberStep_stop (hpoint ▸ hrest) _
  cases hspan with
  | whole hne hdigits =>
    have hpoint : span.contains '.' = false := by
      rw [Bool.eq_false_iff]
      intro hc
      have hdigit := hdigits '.' (by simpa using hc)
      revert hdigit
      decide
    obtain ⟨c, tail, rfl⟩ := List.exists_cons_of_ne_nil hne
    rw [numberStep_digits hs hdigits, hend hpoint, List.nil_append,
      completeNumber_of_isDigit (hdigits c (by simp))]
  | @point whole fraction hwhole hfraction hlead =>
    have hpoint : (whole ++ '.' :: fraction).contains '.' = true := by simp
    rw [List.append_assoc, List.cons_append] at hs
    rw [numberStep_digits hs hwhole, List.nil_append, numberStep_point rfl,
      numberStep_digits rfl hfraction, past_past, past_past, List.append_assoc,
      List.singleton_append, hend hpoint]
    cases whole with
    | nil => rfl
    | cons c tail =>
      rw [List.cons_append, completeNumber_of_isDigit (hwhole c (by simp))]
      simp

end Runs

section Strings

variable {s : Scanner} {quote c : Char} {body rest : List Char}

/-- A string ends at the closing quote, or with the text. -/
theorem stringStep_stop (hs : ∀ c ∈ s.rest.head?, c = quote) (value : List Char) :
    loop (stringStep quote) value s = .ok value s := by
  have hstop : (s.rest.isEmpty || s.peek 0 == quote) = true := by
    cases hrest : s.rest with
    | nil => rfl
    | cons c rest =>
      rw [peek_of_cons hrest, hs c (by rw [hrest]; rfl)]
      simp
  refine loop_of_inr ?_
  rw [stringStep, atEnd_bind, peek_bind, ite_apply, if_pos hstop]
  rfl

/-- A backslash is passed with the character after it. -/
theorem stringStep_escape (hquote : quote ≠ '\\') (hs : s.rest = '\\' :: c :: rest)
    (value : List Char) : loop (stringStep quote) value s =
      loop (stringStep quote) (value ++ ['\\', c]) (s.past ['\\', c] rest) := by
  have hlt : (s.past ['\\', c] rest).rest.length < s.rest.length := by
    rw [hs]
    simp only [Scanner.past, List.length_cons]
    omega
  refine loop_of_inl ?_ hlt
  rw [stringStep, atEnd_bind, peek_bind, peek_of_cons hs, ite_apply,
    if_neg (by simp [hs, hquote.symm]), peek_bind, peek_of_cons hs, ite_apply, if_pos rfl,
    advance_bind hs, atEnd_bind, ite_apply, if_neg (by simp [Scanner.past]), advance_bind rfl,
    past_past]
  rfl

/-- A backslash at the end of the text is passed alone. -/
theorem stringStep_last (hquote : quote ≠ '\\') (hs : s.rest = ['\\']) (value : List Char) :
    loop (stringStep quote) value s =
      loop (stringStep quote) (value ++ ['\\']) (s.past ['\\'] []) := by
  refine loop_of_inl ?_ (past_rest_lt hs)
  rw [stringStep, atEnd_bind, peek_bind, peek_of_cons hs, ite_apply,
    if_neg (by simp [hs, hquote.symm]), peek_bind, peek_of_cons hs, ite_apply, if_pos rfl,
    advance_bind hs, atEnd_bind, ite_apply, if_pos (by simp [Scanner.past])]
  rfl

/-- Any other character is passed. -/
theorem stringStep_plain (hne : c ≠ quote) (hback : c ≠ '\\') (hs : s.rest = c :: rest)
    (value : List Char) : loop (stringStep quote) value s =
      loop (stringStep quote) (value ++ [c]) (s.past [c] rest) := by
  refine loop_of_inl ?_ (past_rest_lt hs)
  rw [stringStep, atEnd_bind, peek_bind, peek_of_cons hs, ite_apply, if_neg (by simp [hs, hne]),
    peek_bind, peek_of_cons hs, ite_apply, if_neg hback, advance_bind hs]
  rfl

/-- The body of a string is passed up to the closing quote. -/
theorem string_loop (hbody : Enclosed quote body) (hquote : quote ≠ '\\')
    (hs : s.rest = body ++ quote :: rest) (value : List Char) :
    loop (stringStep quote) value s = .ok (value ++ body) (s.past body (quote :: rest)) := by
  induction hbody generalizing s value with
  | nil =>
    rw [List.nil_append] at hs
    rw [List.append_nil, past_nil hs, stringStep_stop (by simp [hs])]
  | @escape c body _ ih =>
    rw [stringStep_escape hquote hs, ih rfl, past_past, List.append_assoc]
    rfl
  | @plain c body hne hback _ ih =>
    rw [stringStep_plain hne hback hs, ih rfl, past_past, List.append_assoc]
    rfl

/-- Without a closing quote, a string is passed to the end of the text. -/
theorem string_loop_end {text : List Char} (hnone : stringBody? quote text = none)
    (hquote : quote ≠ '\\') (hs : s.rest = text) (value : List Char) :
    ∃ all, loop (stringStep quote) value s = .ok all (s.past text []) := by
  fun_induction stringBody? quote text generalizing s value with
  | case1 => exact ⟨value, by rw [past_nil hs, stringStep_stop (by simp [hs])]⟩
  | case2 => simp at hnone
  | case3 hne =>
    have hstop : ∀ c ∈ (s.past ['\\'] []).rest.head?, c = quote := by simp [Scanner.past]
    exact ⟨value ++ ['\\'], by rw [stringStep_last hquote hs, stringStep_stop hstop]⟩
  | case4 d rest hne ih =>
    obtain ⟨all, hall⟩ := ih (s := s.past ['\\', d] rest) (Option.map_eq_none_iff.1 hnone) rfl
      (value ++ ['\\', d])
    rw [past_past] at hall
    exact ⟨all, (stringStep_escape hquote hs value).trans hall⟩
  | case5 c rest hne hback ih =>
    obtain ⟨all, hall⟩ := ih (s := s.past [c] rest) (Option.map_eq_none_iff.1 hnone) rfl
      (value ++ [c])
    rw [past_past] at hall
    exact ⟨all, (stringStep_plain hne hback hs value).trans hall⟩

end Strings

section Lexemes

variable {s : Scanner}

/-- Adding a token changes nothing else. -/
theorem emit_past {lexeme : Lexeme} {kind : Kind} {rest : List Char}
    (hkind : lexeme.kind = some kind) (hs : s.rest = lexeme.span ++ rest) :
    emit kind s.position lexeme.text (s.past lexeme.span rest) = .ok () (s.take lexeme) := by
  rw [Scanner.take_eq hs]
  simp [emit, Scanner.emit, Scanner.past, token?, hkind]

/-- A run of separators is passed. -/
theorem blank_eq (h : next s.afterOperand s.rest = .ok (blank s.rest)) :
    (do let _ ← loop (runStep isSeparator) []) s = .ok () (s.take (blank s.rest)) := by
  obtain ⟨-, rest, hs, hrest⟩ := formed_of_next h
  have hloop := runStep_loop (by decide) hs (forall_mem_takeWhile isSeparator s.rest) hrest []
  rw [bind_of_ok hloop, Scanner.take_eq hs]
  rfl

/-- A number is passed, and completed. -/
theorem number_eq (h : next s.afterOperand s.rest = .ok (number s.rest)) :
    (do emit .number s.position (← loop numberStep ([], false))) s =
      .ok () (s.take (number s.rest)) := by
  obtain ⟨hformed, rest, hs, hrest⟩ := formed_of_next h
  have hloop := number_loop (hformed.numeral rfl).1 hs hrest
  rw [bind_of_ok hloop]
  exact emit_past rfl hs

/-- A token of one character is passed. -/
theorem single_eq {c : Char} {text : List Char} (hs : s.rest = c :: text) (kind : Kind) :
    (do emit kind s.position [← advance]) s = .ok () (s.take (single kind c)) := by
  have hspan : s.rest = (single kind c).span ++ text := hs
  rw [advance_bind hs]
  exact emit_past rfl hspan

/-- A word is passed. -/
theorem word_eq (h : next s.afterOperand s.rest = .ok (word s.rest)) :
    (do
      let letters ← loop (runStep isLetter) []
      emit (wordKind letters) s.position letters) s = .ok () (s.take (word s.rest)) := by
  obtain ⟨-, rest, hs, hrest⟩ := formed_of_next h
  have hend : ∀ c ∈ rest.head?, isLetter c = false := by
    intro c hc
    rw [← hrest c hc, word, continues_word]
  have hloop := runStep_loop (by decide) hs (forall_mem_takeWhile isLetter s.rest) hend []
  rw [bind_of_ok hloop]
  exact emit_past rfl hs

/-- Cutting off a lexeme takes it. -/
theorem outcome_scan_of_ok {lexeme : Lexeme} (h : next s.afterOperand s.rest = .ok lexeme) :
    outcome s.scan = .ok () (s.take lexeme) := by
  rw [Scanner.scan_eq_ok_iff.2 ⟨lexeme, h, rfl⟩]
  rfl

/-- Failing to cut off a lexeme leaves the scanner there, or at the end. -/
theorem outcome_scan_of_error {obstacle : Obstacle}
    (h : next s.afterOperand s.rest = .error obstacle) :
    outcome s.scan = .error (.inr (s.failure obstacle))
      (if obstacle = .unterminated then s.skip s.rest.length else s) := by
  rw [Scanner.scan, h]
  cases obstacle <;> rfl

/-- A string is passed, or the text to its end if the quote is not closed. -/
theorem string_eq {quote : Char} {text : List Char} (hs : s.rest = quote :: text)
    (hquote : isQuote quote = true)
    (h : next s.afterOperand s.rest =
      match string? quote text with
      | some lexeme => .ok lexeme
      | none => .error .unterminated) :
    string s s = outcome s.scan := by
  have hback : quote ≠ '\\' := (mem_marks_of_isQuote hquote).2.2.2
  rw [string, advance_bind hs]
  unfold string? at h
  cases hbody : stringBody? quote text with
  | none =>
    obtain ⟨all, hall⟩ := string_loop_end (s := s.past [quote] text) hbody hback rfl []
    rw [bind_of_ok hall, past_past, atEnd_bind, ite_apply, if_pos (by simp [Scanner.past])]
    have hskip : s.skip s.rest.length = s.past ([quote] ++ text) [] := by
      simp [Scanner.skip, Scanner.past, hs]
    rw [hbody] at h
    rw [outcome_scan_of_error h, Scanner.failure, peek_of_cons hs, if_pos rfl, hskip]
    rfl
  | some body =>
    obtain ⟨henclosed, rest, rfl⟩ := (stringBody?_eq_some_iff hback).1 hbody
    have hloop := string_loop (s := s.past [quote] (body ++ quote :: rest)) henclosed hback rfl []
    rw [bind_of_ok hloop, past_past, atEnd_bind, ite_apply, if_neg (by simp [Scanner.past]),
      advance_bind rfl, past_past]
    let lexeme : Lexeme := ⟨some .string, quote :: body ++ [quote], body⟩
    have hspan : s.rest = lexeme.span ++ rest := by simp [lexeme, hs]
    rw [hbody] at h
    rw [outcome_scan_of_ok h]
    exact emit_past rfl hspan

/-- Whether a number starts is seen by looking two characters ahead. -/
theorem startsNumber_eq {c : Char} {text : List Char} (hs : s.rest = c :: text) :
    (isDigit c || (c == '.' && isDigit (s.peek 1) && !s.afterOperand)) =
      startsNumber s.afterOperand c text := by
  have hpeek : isDigit (s.peek 1) = (text.head?.map isDigit).getD false := by
    cases text with
    | nil =>
      have hnull : s.peek 1 = '\x00' := by simp [Scanner.peek, hs]
      rw [hnull]
      decide
    | cons d text => simp [Scanner.peek, hs]
  rw [startsNumber, hpeek]

/-- Scanning a lexeme character by character is cutting it off. -/
theorem scan_eq (s : Scanner) : scan s = outcome s.scan := by
  have hget : ∀ {f : Scanner → Checked LexError Scanner Unit}, (get >>= f) s = f s s := rfl
  unfold scan
  rw [hget]
  cases hs : s.rest with
  | nil =>
    have hpeek : s.peek 0 = '\x00' := by simp [Scanner.peek, hs]
    have hpunctuation : punctuation? '\x00' = none := by decide
    simp only [hpeek, hpunctuation]
    rw [if_neg (by decide), if_neg (by simp; decide), if_neg (by decide), if_neg (by decide),
      if_neg (by decide)]
    have h : next s.afterOperand s.rest = .error .unrecognized := by rw [hs, next]
    rw [outcome_scan_of_error h]
    rfl
  | cons c text =>
    simp only [peek_of_cons hs, startsNumber_eq hs]
    have hnext : next s.afterOperand s.rest = next s.afterOperand (c :: text) := by rw [hs]
    by_cases hseparator : isSeparator c = true
    · rw [if_pos hseparator]
      have h : next s.afterOperand s.rest = .ok (blank s.rest) := by
        rw [hnext, next, if_pos hseparator, hs]
      rw [blank_eq h, outcome_scan_of_ok h]
    rw [if_neg hseparator]
    by_cases hnumber : startsNumber s.afterOperand c text = true
    · rw [if_pos hnumber]
      have h : next s.afterOperand s.rest = .ok (number s.rest) := by
        rw [hnext, next, if_neg hseparator, if_pos hnumber, hs]
      rw [number_eq h, outcome_scan_of_ok h]
    rw [if_neg hnumber]
    cases hmark : punctuation? c with
    | some kind =>
      have h : next s.afterOperand s.rest = .ok (single kind c) := by
        rw [hnext, next, if_neg hseparator, if_neg hnumber, hmark]
      rw [outcome_scan_of_ok h]
      exact single_eq hs kind
    | none =>
      rw [next, if_neg hseparator, if_neg hnumber, hmark] at hnext
      dsimp only at hnext ⊢
      by_cases hoperator : isOperator c = true
      · rw [if_pos hoperator] at hnext ⊢
        rw [outcome_scan_of_ok hnext]
        exact single_eq hs .operator
      rw [if_neg hoperator] at hnext ⊢
      by_cases hquote : isQuote c = true
      · rw [if_pos hquote] at hnext ⊢
        exact string_eq hs hquote hnext
      rw [if_neg hquote] at hnext ⊢
      by_cases hletter : isLetter c = true
      · rw [if_pos hletter] at hnext ⊢
        rw [← hs] at hnext
        rw [word_eq hnext, outcome_scan_of_ok hnext]
      · rw [if_neg hletter] at hnext ⊢
        rw [outcome_scan_of_error hnext]
        rfl

/-- Scanning to the end character by character is cutting the text. -/
theorem scanAll_eq (s : Scanner) : scanAll s = outcome s.scanAll := by
  fun_induction Scanner.scanAll s with
  | case1 s hrest =>
    have hstep : scanStep () s = .ok (.inr ()) s := by
      rw [scanStep, atEnd_bind, hrest]
      rfl
    rw [scanAll, bind_of_ok (loop_of_inr hstep)]
    rfl
  | case2 s hrest t hscan ih =>
    have hstep : scanStep () s = .ok (.inl ()) t := by
      rw [scanStep, atEnd_bind, ite_apply, if_neg (by simpa using hrest)]
      refine bind_of_ok ?_
      rw [scan_eq, hscan]
      rfl
    have hloop := loop_of_inl hstep (Scanner.rest_lt_of_scan hscan)
    rw [← ih, scanAll, bind_congr hloop]
  | case3 s hrest e t hscan =>
    have hstep : scanStep () s = .error (.inr e) t := by
      rw [scanStep, atEnd_bind, ite_apply, if_neg (by simpa using hrest)]
      refine bind_of_error ?_
      rw [scan_eq, hscan]
      rfl
    rw [scanAll, bind_of_error (loop_of_error hstep)]
    rfl

end Lexemes

/-- Scanning a text character by character gives its tokens. -/
theorem tokenize_eq (source : String) :
    tokenize source = (Scriptlet.tokenize source).mapError .inr := by
  unfold tokenize Scriptlet.tokenize
  rw [scanAll_eq]
  cases (Scanner.ofSource source).scanAll <;> rfl

end Checked

end Scriptlet
