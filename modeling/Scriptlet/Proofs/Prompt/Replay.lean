import Mathlib.Algebra.Ring.Parity
import Mathlib.Data.List.DropRight
import Scriptlet.Prompt

/-!
# Replaying a session

What the prompt remembers depends on few of the texts that were submitted. Its
environment is the one that the programs since the last reset leave when they
are run one after the other in a new environment, failures included, and for
each of these programs it has shown the value or the failure that it has
there. Commands, blank lines and interruptions in between change nothing of
this, and neither do the settings for trees and tracebacks.
-/

namespace Scriptlet.Prompt

/-- Whether a text ends the session. -/
def endsSession (text : String) : Bool :=
  exitWords.contains (Text.trim text)

/-- Whether a text is a command. -/
def isCommand (text : String) : Bool :=
  (Text.trim text).toList.head? == some '/'

/-- Whether a text is a command with a given first word. -/
def isCommandOf (word text : String) : Bool :=
  isCommand text && (Text.splitWord (Text.trim text)).1 == word

/-- Whether a text starts again with a new environment. -/
def isReset (text : String) : Bool :=
  isCommandOf "/reset" text

/-- Whether a text switches the display of trees. -/
def isTreeSwitch (text : String) : Bool :=
  isCommandOf "/ast" text

/-- Whether a text is run as a program: it is neither blank nor a command. -/
def isProgram (text : String) : Bool :=
  Text.trim text != "" && !isCommand text

section Selection

variable {α : Type} (text : α → String)

/-- What comes before the end of the session. -/
def beforeEnd (entries : List α) : List α :=
  entries.takeWhile fun entry => !endsSession (text entry)

/-- What comes after the last reset. -/
def sinceReset (entries : List α) : List α :=
  entries.rtakeWhile fun entry => !isReset (text entry)

/-- The programs since the last reset before the end of the session. -/
def programs (entries : List α) : List α :=
  (sinceReset text (beforeEnd text entries)).filter fun entry => isProgram (text entry)

end Selection

/-- The texts that are submitted, without their invisible characters. -/
def submitted (events : List Event) : List String :=
  events.filterMap fun
    | .submit text => some (normalize text)
    | .interrupt => none

/-- A submitted text and what is shown for it. -/
structure Exchange where
  /-- The text without its invisible characters. -/
  text : String
  /-- What is shown after it. -/
  shown : List Output

/-- Whether something shown is no answer of its own: the mark that asks for the next
text, a tree or a traceback. -/
def isAside : Output → Bool
  | .mark | .tree _ | .traceback => true
  | _ => false

/-- What is shown as the answer. -/
def answers (shown : List Output) : List Output :=
  shown.filter fun output => !isAside output

/-- The texts among events, each with what is shown after it. -/
def exchanges (events : List Event) (shown : List (List Output)) : List Exchange :=
  (events.zip shown).filterMap fun
    | (.submit text, shown) => some ⟨normalize text, shown⟩
    | (.interrupt, _) => none

/-- The texts that are submitted in a session, each with what is shown between it
and the next event. -/
def Transcript.exchanges (t : Transcript) (events : List Event) : List Exchange :=
  Prompt.exchanges events t.chunks.tail

/-- The value or the failure of a program in an environment, and the environment
that it leaves. A value that is null is not shown. -/
def outcome (source : String) (env : Environment) : List Output × Environment :=
  match run source env with
  | .ok value env => (if value.isNull then [] else [.result value], env)
  | .error failure env => ([.failure failure.message], env)

/-- The outcomes of programs that are run one after the other, and the environment
that they leave. -/
def replay (env : Environment) : List String → List (List Output) × Environment
  | [] => ([], env)
  | source :: rest =>
    let first := outcome source env
    let later := replay first.2 rest
    (first.1 :: later.1, later.2)

/-- The traceback command neither resets nor switches the display of trees. -/
theorem ofTraceArgument_ne (argument : String) :
    Slash.ofTraceArgument argument ≠ .reset ∧ Slash.ofTraceArgument argument ≠ .tree := by
  unfold Slash.ofTraceArgument
  repeat' split
  all_goals simp

/-- What starts with a slash is a command, and its first word says whether it
resets or switches the display of trees. -/
theorem exists_slash {text : String} (h : isCommand text = true) :
    ∃ slash, Slash.ofLine? text = some slash ∧ (slash = .reset ↔ isReset text = true) ∧
      (slash = .tree ↔ isTreeSwitch text = true) := by
  have hhead : (Text.trim text).toList.head? = some '/' := by simpa [isCommand] using h
  simp only [isReset, isTreeSwitch, isCommandOf, h, Bool.true_and, beq_iff_eq, Slash.ofLine?,
    hhead, if_true]
  generalize (Text.splitWord (Text.trim text)).1 = word
  obtain ⟨hreset, htree⟩ := ofTraceArgument_ne (Text.splitWord (Text.trim text)).2
  by_cases hclear : word = "/clear"
  · exact ⟨.clear, by simp [hclear]⟩
  by_cases hast : word = "/ast"
  · exact ⟨.tree, by simp [hast]⟩
  by_cases htrace : word = "/py-traceback"
  · exact ⟨_, if_neg hclear |>.trans (if_neg hast |>.trans (if_pos htrace)),
      by simp [htrace, hreset, htree]⟩
  by_cases hword : word = "/reset"
  · exact ⟨.reset, by simp [hword]⟩
  · exact ⟨.unknown word, by simp [hclear, hast, htrace, hword]⟩

/-- What does not start with a slash is no command. -/
theorem ofLine?_eq_none {text : String} (h : isCommand text = false) :
    Slash.ofLine? text = none := by
  have hhead : ¬ (Text.trim text).toList.head? = some '/' := by simpa [isCommand] using h
  simp [Slash.ofLine?, hhead]

variable (p : Prompt)

/-- Only a reset changes the environment, and only one command switches the display of
trees. -/
theorem command_effect (slash : Slash) :
    (p.command slash).2.environment = (if slash = .reset then .global else p.environment) ∧
      (p.command slash).2.showTree = (if slash = .tree then !p.showTree else p.showTree) := by
  cases slash <;> exact ⟨rfl, rfl⟩

/-- Answers are shown one after the other. -/
theorem answers_append (shown more : List Output) :
    answers (shown ++ more) = answers shown ++ answers more :=
  List.filter_append ..

/-- A failure that is shown is the outcome, with its message. -/
theorem fail_outcome {shown : List Output} {failure : Failure}
    (hshown : answers shown = []) (h : (p.fail shown failure).escaped = none) :
    answers (p.fail shown failure).outputs = [.failure failure.message] ∧
      (p.fail shown failure).prompt = p := by
  unfold fail at h ⊢
  cases hreported : failure.isReported with
  | false => simp [hreported] at h
  | true =>
    have hreport : answers (p.report failure) = [.failure failure.message] := by
      unfold report
      cases p.trace.isOn <;> rfl
    simp [answers_append, hshown, hreport]

/-- A program that ends the session no other way is shown with its outcome, and the
prompt goes on in the environment that it leaves. -/
theorem evalText_outcome (text : String) (h : (p.evalText text).escaped = none) :
    (answers (p.evalText text).outputs, (p.evalText text).prompt.environment) =
        outcome text p.environment ∧
      (p.evalText text).prompt.showTree = p.showTree := by
  unfold evalText at h ⊢
  unfold outcome run
  cases hparse : parse text with
  | error failure =>
    rw [hparse] at h
    obtain ⟨houtputs, hprompt⟩ := p.fail_outcome rfl h
    dsimp only
    rw [houtputs, hprompt]
    exact ⟨rfl, rfl⟩
  | ok node =>
    rw [hparse] at h
    have hshown : answers (if p.showTree then [Output.tree node.dump] else []) = [] := by
      cases p.showTree <;> rfl
    dsimp only at h ⊢
    cases heval : evaluate node p.environment with
    | error failure env =>
      rw [heval] at h
      obtain ⟨houtputs, hprompt⟩ := fail_outcome _ hshown h
      dsimp only
      rw [houtputs, hprompt]
      exact ⟨rfl, rfl⟩
    | ok value env =>
      dsimp only
      rw [answers_append, hshown, List.nil_append]
      cases value.isNull <;> exact ⟨rfl, rfl⟩

/-- Whether an exchange leads from one environment to another: a reset to a new one,
a program to the one that it leaves, with its outcome shown, and anything else to
the same one. -/
structure Leads (env : Environment) (x : Exchange) (env' : Environment) : Prop where
  /-- A reset starts again. -/
  reset : isReset x.text = true → env' = .global
  /-- A program is run. -/
  program : isProgram x.text = true → (answers x.shown, env') = outcome x.text env
  /-- Nothing else changes the environment. -/
  idle : isReset x.text = false → isProgram x.text = false → env' = env

/-- Whether exchanges one after the other lead from one environment to another. -/
inductive Follows : Environment → List Exchange → Environment → Prop
  | nil {env : Environment} : Follows env [] env
  | cons {env env' env'' : Environment} {x : Exchange} {xs : List Exchange} :
      Leads env x env' → Follows env' xs env'' → Follows env (x :: xs) env''

/-- A reset is a command. -/
theorem isReset_eq_false {text : String} (h : isCommand text = false) : isReset text = false := by
  simp [isReset, isCommandOf, h]

/-- A text after which the session goes on does not end it, leads from the
environment before to the one after, and switches the display of trees if it is
the command for that. -/
theorem respond_next {text : String} {outputs : List Output} {p' : Prompt}
    (h : p.respond text = .next outputs p') :
    endsSession (normalize text) = false ∧
      Leads p.environment ⟨normalize text, outputs ++ [.mark]⟩ p'.environment ∧
      p'.showTree = (p.showTree ^^ isTreeSwitch (normalize text)) := by
  unfold respond at h
  generalize normalize text = text at h ⊢
  dsimp only at h
  split at h
  · rename_i hblank
    obtain ⟨rfl, rfl⟩ : [] = outputs ∧ p = p' := by simpa using h
    have hcommand : isCommand text = false := by simp [isCommand, hblank]
    have hreset := isReset_eq_false hcommand
    refine ⟨by simp [endsSession, hblank, exitWords], ⟨?_, ?_, fun _ _ => rfl⟩, ?_⟩
    · simp [hreset]
    · simp [isProgram, hblank]
    · simp [isTreeSwitch, isCommandOf, hcommand]
  split at h
  · simp at h
  rename_i hblank hends
  refine ⟨by simpa [endsSession] using hends, ?_⟩
  cases hcommand : isCommand text with
  | true =>
    obtain ⟨slash, hslash, hreset, htree⟩ := exists_slash hcommand
    obtain ⟨henv, hshow⟩ := p.command_effect slash
    simp only [slash?, hslash, Option.map_some, Answer.next.injEq] at h
    obtain ⟨rfl, rfl⟩ := h
    refine ⟨⟨?_, ?_, ?_⟩, ?_⟩
    · intro hr
      rw [henv, if_pos (hreset.2 hr)]
    · simp [isProgram, hcommand]
    · intro hr _
      rw [henv, if_neg (by simp [hreset, hr])]
    · rw [hshow]
      by_cases ht : slash = .tree
      · simp [ht, htree.1 ht]
      · have hno : isTreeSwitch text = false := Bool.eq_false_iff.2 (mt htree.2 ht)
        simp [ht, hno]
  | false =>
    have hreset := isReset_eq_false hcommand
    simp only [slash?, ofLine?_eq_none hcommand, Option.map_none] at h
    cases hescaped : (p.evalText text).escaped with
    | some failure => simp [hescaped] at h
    | none =>
      simp only [hescaped, Answer.next.injEq] at h
      obtain ⟨rfl, rfl⟩ := h
      obtain ⟨houtcome, hshow⟩ := p.evalText_outcome text hescaped
      refine ⟨⟨?_, ?_, ?_⟩, ?_⟩
      · simp [hreset]
      · intro _
        rw [← houtcome, answers_append]
        exact congrArg (·, _) (List.append_nil _)
      · simp [isProgram, hcommand, hblank]
      · simp [hshow, isTreeSwitch, isCommandOf, hcommand]

/-- A text that ends the session is one of the words for that. -/
theorem respond_exit {text : String} (h : p.respond text = .exit) :
    endsSession (normalize text) = true := by
  unfold respond at h
  generalize normalize text = text at h ⊢
  dsimp only at h
  split at h
  · simp at h
  split at h
  · rename_i hends
    exact hends
  · split at h
    · simp at h
    · split at h
      · simp at h
      · simp at h

/-- The texts before the end of a session lead from the environment at its start to
the one at its end, and the display of trees is switched once for each command for
that. -/
theorem converse_follows (events : List Event) (h : (p.converse events).escaped = none) :
    let xs := beforeEnd Exchange.text (exchanges events (p.converse events).chunks)
    xs.map Exchange.text = beforeEnd id (submitted events) ∧
      Follows p.environment xs (p.converse events).prompt.environment ∧
      (p.converse events).prompt.showTree =
        (p.showTree ^^ (beforeEnd id (submitted events)).countP isTreeSwitch % 2 == 1) := by
  induction events generalizing p with
  | nil => exact ⟨rfl, .nil, by simp [converse, submitted, beforeEnd]⟩
  | cons event rest ih =>
    cases event with
    | interrupt =>
      obtain ⟨htexts, hfollows, hshow⟩ := ih p h
      exact ⟨htexts, hfollows, hshow⟩
    | submit text =>
      rw [converse, answer] at h ⊢
      cases hrespond : p.respond text with
      | next outputs p' =>
        rw [hrespond] at h
        obtain ⟨hends, hleads, hswitch⟩ := p.respond_next hrespond
        obtain ⟨htexts, hfollows, hshow⟩ := ih p' h
        dsimp only [beforeEnd, exchanges, submitted, id] at htexts hfollows hshow ⊢
        simp only [List.zip_cons_cons, List.filterMap_cons, List.takeWhile_cons, hends,
          Bool.not_false, if_true, List.map_cons, htexts, List.countP_cons, hshow, hswitch, true_and]
        refine ⟨.cons hleads hfollows, ?_⟩
        generalize List.countP isTreeSwitch _ = n
        have hparity : ((n + 1) % 2 == 1) = !(n % 2 == 1) := by
          rcases Nat.mod_two_eq_zero_or_one n with hn | hn <;> simp [Nat.add_mod, hn]
        cases isTreeSwitch (normalize text) <;> simp [hparity]
      | exit =>
        have hends := p.respond_exit hrespond
        dsimp only [beforeEnd, exchanges, submitted, id]
        simp only [List.zip_cons_cons, List.filterMap_cons, List.takeWhile_cons, hends,
          Bool.not_true, Bool.false_eq_true, if_false]
        exact ⟨rfl, .nil, by simp⟩
      | crash outputs failure p' =>
        rw [hrespond] at h
        cases h

/-- What comes after the last reset stays the same if there is a reset later;
otherwise it starts after the first entry if that is a reset, and with it if not. -/
theorem sinceReset_cons {α : Type} (text : α → String) (entry : α) (rest : List α) :
    sinceReset text (entry :: rest) =
      if rest.any (fun later => isReset (text later)) then sinceReset text rest
      else if isReset (text entry) then rest else entry :: rest := by
  unfold sinceReset
  induction rest using List.reverseRecOn with
  | nil => cases h : isReset (text entry) <;> simp [List.rtakeWhile, h]
  | append_singleton rest last ih =>
    rw [← List.cons_append]
    cases h : isReset (text last) with
    | true => simp [h]
    | false =>
      rw [List.rtakeWhile_concat, List.rtakeWhile_concat, ih]
      cases hany : rest.any fun later => isReset (text later) <;>
        cases isReset (text entry) <;> simp [h, hany]

/-- Exchanges that lead from one environment to another show the outcomes of the
programs since the last reset, run from a new environment if there is a reset and from
the first environment if not; and these programs leave the last environment. What
happens before a later reset does not count. -/
theorem Follows.replay {env env' : Environment} {xs : List Exchange} (h : Follows env xs env') :
    let base := if xs.any (fun x => isReset x.text) then .global else env
    let kept := (sinceReset Exchange.text xs).filter fun x => isProgram x.text
    Prompt.replay base (kept.map Exchange.text) = (kept.map (fun x => answers x.shown), env') := by
  induction h with
  | nil => rfl
  | @cons env env' env'' x xs hleads _ ih =>
    dsimp only at ih ⊢
    rw [sinceReset_cons, List.any_cons]
    cases hlater : xs.any fun x => isReset x.text with
    | true =>
      rw [hlater] at ih
      simpa using ih
    | false =>
      have hself : sinceReset Exchange.text xs = xs := by
        rw [sinceReset, List.rtakeWhile_eq_self_iff]
        simpa using hlater
      rw [hlater, hself] at ih
      simp only [Bool.false_eq_true, if_false] at ih
      cases hreset : isReset x.text with
      | true =>
        rw [hleads.reset hreset] at ih
        simpa using ih
      | false =>
        cases hprogram : isProgram x.text with
        | true =>
          have hfirst := hleads.program hprogram
          have hkept : (x :: xs).filter (fun x => isProgram x.text) =
              x :: xs.filter fun x => isProgram x.text := by simp [hprogram]
          simp only [Bool.or_false, Bool.false_eq_true, if_false]
          rw [hkept, List.map_cons, List.map_cons, Prompt.replay, ← hfirst]
          dsimp only
          rw [ih]
        | false =>
          have hkept : (x :: xs).filter (fun x => isProgram x.text) =
              xs.filter fun x => isProgram x.text := by simp [hprogram]
          rw [hleads.idle hreset hprogram] at ih
          simp only [Bool.or_false, Bool.false_eq_true, if_false]
          rw [hkept, ih]

/-- The texts of the programs since the last reset are the programs among the
texts. -/
theorem map_programs {α : Type} {text : α → String} {entries : List α} {texts : List String}
    (h : (beforeEnd text entries).map text = beforeEnd id texts) :
    (programs text entries).map text = programs id texts := by
  unfold programs sinceReset List.rtakeWhile
  rw [← h, ← List.map_reverse, List.takeWhile_map, ← List.map_reverse, List.filter_map]
  simp only [Function.comp_def, id_eq]

/-- At the end of a session that no failure has ended, the environment is the one that
the programs since the last reset leave in a new environment; for each of them the
outcome that it has there was shown; and the tree of each program is shown if the
display of trees was switched an odd number of times. -/
theorem session_replays {trace : Trace} {events : List Event}
    (h : (session trace events).escaped = none) :
    let t := session trace events
    let kept := programs id (submitted events)
    t.prompt.environment = (replay .global kept).2 ∧
      (programs Exchange.text (t.exchanges events)).map (fun x => (x.text, answers x.shown)) =
        kept.zip (replay .global kept).1 ∧
      (t.prompt.showTree = true ↔ Odd ((beforeEnd id (submitted events)).countP isTreeSwitch)) := by
  intro t kept
  obtain ⟨htexts, hfollows, hshow⟩ := (start trace).converse_follows events h
  have hstart : (start trace).environment = .global := rfl
  rw [hstart] at hfollows
  let xs := programs Exchange.text (t.exchanges events)
  have hreplay : replay .global (xs.map Exchange.text) =
      (xs.map (fun x => answers x.shown), t.prompt.environment) := by
    have hfrom : replay (if _ then Environment.global else .global) _ = _ := hfollows.replay
    rw [ite_self] at hfrom
    exact hfrom
  have hkept : xs.map Exchange.text = kept := map_programs htexts
  have hswitched : t.prompt.showTree = (false ^^ _ % 2 == 1) := hshow
  rw [← hkept, hreplay, hswitched, Nat.odd_iff]
  exact ⟨rfl, List.zip_map'.symm, by simp⟩

/-- A session with a reset, in which the tree of a program is shown and a program
fails. -/
theorem session_replays_after_reset :
    let events : List Event :=
      [.submit "let a;", .interrupt, .submit "/ast", .submit " /reset now", .submit "a",
        .submit "exit"]
    let t := session ⟨some "on"⟩ events
    t.escaped = none ∧ t.prompt.environment = (replay .global ["a"]).2 ∧
      (programs Exchange.text (t.exchanges events)).map (fun x => (x.text, answers x.shown)) =
        ["a"].zip (replay .global ["a"]).1 ∧ t.prompt.showTree = true := by
  intro events t
  have hnone : t.escaped.isNone = true := by decide +kernel
  have hescaped : t.escaped = none := Option.isNone_iff_eq_none.1 hnone
  have hkept : programs id (submitted events) = ["a"] := by decide +kernel
  have hcount : (beforeEnd id (submitted events)).countP isTreeSwitch = 1 := by decide +kernel
  obtain ⟨henv, houtcomes, hshow⟩ := session_replays hescaped
  rw [hkept] at henv houtcomes
  rw [hcount] at hshow
  exact ⟨hescaped, henv, houtcomes, hshow.2 odd_one⟩

end Scriptlet.Prompt
