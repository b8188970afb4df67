import Scriptlet.Proofs.Prompt.Replay
import Scriptlet.Proofs.Script.Safety

/-!
# How a session ends

A session goes on after every text but two kinds. One is a word that ends it,
as the user asks. The other is a program with a number that cannot be read,
because one of its digits is no decimal digit: its failure is not one of the
language, so it is not reported, and the session ends with it. If there is no
such program, every event is answered up to the word that ends the session, or
up to the end of the input.
-/

namespace Scriptlet

open Character

/-- The failures that the language provides for are reported. -/
theorem Failure.Proper.isReported {failure : Failure} (h : failure.Proper) :
    failure.isReported = true := by
  cases h with
  | lexical | grammatical => rfl
  | evaluation h => cases h <;> rfl

namespace Prompt

/-- The number that keeps a text from being parsed, if it cannot be read. -/
def unreadable? (text : String) : Option String :=
  match parse text with
  | .error (.unreadable numeral) => some numeral
  | _ => none

/-- A number that cannot be read has a digit that is no decimal digit. -/
theorem exists_digit_of_unreadable? {text numeral : String} (h : unreadable? text = some numeral) :
    ∃ c ∈ numeral.toList, isDigit c = true ∧ Number.isDecimal c = false := by
  unfold unreadable? at h
  split at h
  · rename_i hparse
    obtain rfl := Option.some.inj h
    obtain hproper | ⟨_, hsame, c, hc, -, hdigit⟩ := proper_or_unreadable_of_parse hparse
    · cases hproper
    · cases hsame
      exact ⟨c, hc, hdigit⟩
  · cases h

variable (p : Prompt)

/-- A failure ends the session unless it is reported. -/
theorem escaped_fail (shown : List Output) (failure : Failure) :
    (p.fail shown failure).escaped = if failure.isReported then none else some failure := by
  unfold fail
  split <;> rfl

/-- A text ends the session only with a number that cannot be read. -/
theorem escaped_evalText (text : String) :
    (p.evalText text).escaped = (unreadable? text).map .unreadable := by
  unfold evalText unreadable?
  cases hparse : parse text with
  | error failure =>
    dsimp only
    rw [escaped_fail]
    obtain hproper | ⟨numeral, rfl, -⟩ := proper_or_unreadable_of_parse hparse
    · rw [if_pos hproper.isReported]
      cases hproper <;> rfl
    · rfl
  | ok node =>
    dsimp only
    cases heval : evaluate node p.environment with
    | ok value env => rfl
    | error failure env =>
      have hproper := proper_of_evaluate hparse heval
      dsimp only
      rw [escaped_fail, if_pos hproper.isReported]
      rfl

/-- Whether an event ends the session as the user asks. -/
def Event.ends : Event → Bool
  | .submit text => endsSession (normalize text)
  | .interrupt => false

/-- The number that cannot be read in the program that an event submits. -/
def Event.unreadable? : Event → Option String
  | .submit text =>
    if isProgram (normalize text) then Prompt.unreadable? (normalize text) else none
  | .interrupt => none

variable {p}

/-- The session ends after an event that ends it. -/
theorem answer_of_ends {event : Event} (h : event.ends = true) : p.answer event = .exit := by
  cases event with
  | interrupt => cases h
  | submit text =>
    have hends : exitWords.contains (Text.trim (normalize text)) = true := h
    have hne : Text.trim (normalize text) ≠ "" := by
      intro hblank
      rw [hblank] at hends
      revert hends
      decide
    simp only [answer, respond]
    rw [if_neg hne, if_pos hends]

/-- The session goes on after any other event, unless that submits a number that cannot
be read. -/
theorem answer_of_not_ends {event : Event} (h : event.ends = false) :
    match event.unreadable? with
    | none => ∃ outputs p', p.answer event = .next outputs p'
    | some numeral => ∃ outputs p', p.answer event = .crash outputs (.unreadable numeral) p' := by
  cases event with
  | interrupt => exact ⟨_, _, rfl⟩
  | submit text =>
    simp only [Event.unreadable?, answer, respond]
    have hends : ¬ exitWords.contains (Text.trim (normalize text)) = true := by
      simpa [Event.ends, endsSession] using h
    generalize normalize text = text at hends ⊢
    by_cases hblank : Text.trim text = ""
    · simp [isProgram, hblank]
    rw [if_neg hblank, if_neg hends]
    cases hcommand : isCommand text with
    | true =>
      obtain ⟨slash, hslash, -⟩ := exists_slash hcommand
      simp [isProgram, hcommand, slash?, hslash]
    | false =>
      have hprogram : isProgram text = true := by simp [isProgram, hcommand, hblank]
      have hescaped := p.escaped_evalText text
      rw [if_pos hprogram, slash?, ofLine?_eq_none hcommand, Option.map_none]
      dsimp only
      rw [hescaped]
      cases Prompt.unreadable? text with
      | none => exact ⟨_, _, rfl⟩
      | some numeral => exact ⟨_, _, rfl⟩

/-- The events before the one that ends the session. -/
def answered (events : List Event) : List Event :=
  events.takeWhile fun event => !event.ends

/-- The events after the one that ends the session. -/
def unreached (events : List Event) : List Event :=
  (events.dropWhile fun event => !event.ends).tail

/-- Whether a session ends as the user asks: at the first event that ends it, or at
the end of the input after all events. -/
structure Transcript.Returns (t : Transcript) (events : List Event) : Prop where
  /-- No failure ends the session. -/
  escaped : t.escaped = none
  /-- Something is shown at the start, after each event that is answered, and at the
  end. -/
  chunks : t.chunks.length = (answered events).length + 2
  /-- The end of the input is shown if no event ends the session. -/
  last : t.chunks.getLast? = some (if events.any Event.ends then [] else [.ended])
  /-- The events after the one that ends the session are left. -/
  unread : t.unread = (unreached events).length

/-- A session ends with the first number that cannot be read, if there is one before
its end. -/
theorem escaped_converse (p : Prompt) (events : List Event) :
    (p.converse events).escaped =
      ((answered events).findSome? Event.unreadable?).map .unreadable := by
  induction events generalizing p with
  | nil => rfl
  | cons event rest ih =>
    unfold answered at ih ⊢
    cases hends : event.ends with
    | true => simp [converse, answer_of_ends hends, hends]
    | false =>
      have hanswer := p.answer_of_not_ends hends
      rw [List.takeWhile_cons_of_pos (by simp [hends]), List.findSome?_cons]
      cases hnumeral : event.unreadable? with
      | none =>
        rw [hnumeral] at hanswer
        obtain ⟨outputs, p', hnext⟩ := hanswer
        simp only [converse, hnext, ih]
      | some numeral =>
        rw [hnumeral] at hanswer
        obtain ⟨outputs, p', hcrash⟩ := hanswer
        simp only [converse, hcrash, Option.map_some]

/-- A session that no failure ends answers all events before its end. -/
theorem converse_of_escaped_eq_none (p : Prompt) (events : List Event)
    (h : (p.converse events).escaped = none) :
    (p.converse events).chunks.length = (answered events).length + 1 ∧
      (p.converse events).chunks.getLast? =
        some (if events.any Event.ends then [] else [.ended]) ∧
      (p.converse events).unread = (unreached events).length := by
  induction events generalizing p with
  | nil => exact ⟨rfl, rfl, rfl⟩
  | cons event rest ih =>
    unfold answered unreached at ih ⊢
    cases hends : event.ends with
    | true => simp [converse, answer_of_ends hends, hends]
    | false =>
      have hanswer := p.answer_of_not_ends hends
      cases hnumeral : event.unreadable? with
      | none =>
        rw [hnumeral] at hanswer
        obtain ⟨outputs, p', hnext⟩ := hanswer
        simp only [converse, hnext] at h ⊢
        obtain ⟨hlength, hlast, hunread⟩ := ih p' h
        simp [hlength, hlast, hunread, hends, List.getLast?_cons]
      | some numeral =>
        rw [hnumeral] at hanswer
        obtain ⟨outputs, p', hcrash⟩ := hanswer
        simp [converse, hcrash] at h

/-- A session ends as the user asks exactly if no program that is submitted before its
end has a number that cannot be read; and such a number has a digit that is no decimal
digit. -/
theorem session_returns_iff (trace : Trace) (events : List Event) :
    ((session trace events).Returns events ↔
      ∀ event ∈ answered events, event.unreadable? = none) ∧
    ∀ event ∈ answered events, ∀ numeral, event.unreadable? = some numeral →
      ∃ c ∈ numeral.toList, isDigit c = true ∧ Number.isDecimal c = false := by
  have hescaped : (session trace events).escaped =
      ((answered events).findSome? Event.unreadable?).map .unreadable :=
    escaped_converse (start trace) events
  refine ⟨⟨fun h => ?_, fun h => ?_⟩, fun event _ numeral hnumeral => ?_⟩
  · rw [h.escaped, eq_comm, Option.map_eq_none_iff] at hescaped
    exact List.findSome?_eq_none_iff.1 hescaped
  · rw [List.findSome?_eq_none_iff.2 h, Option.map_none] at hescaped
    obtain ⟨hlength, hlast, hunread⟩ :=
      converse_of_escaped_eq_none (start trace) events hescaped
    exact ⟨hescaped, by simp [session, hlength], by simp [session, List.getLast?_cons, hlast],
      hunread⟩
  · cases event with
    | interrupt => cases hnumeral
    | submit text =>
      simp only [Event.unreadable?] at hnumeral
      split at hnumeral
      · exact exists_digit_of_unreadable? hnumeral
      · cases hnumeral

/-- A superscript digit ends the session, and the text after it is not reached. -/
theorem not_session_returns_superscript :
    ¬ ∀ trace events, (session trace events).Returns events := by
  intro h
  have hescaped := (h ⟨none⟩ [.submit "²", .submit "1"]).escaped
  have hsome : (session ⟨none⟩ [.submit "²", .submit "1"]).escaped.isSome = true := by
    decide +kernel
  rw [hescaped] at hsome
  cases hsome

end Prompt

end Scriptlet
