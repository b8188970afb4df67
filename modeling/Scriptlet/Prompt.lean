import Scriptlet.Node.Tree
import Scriptlet.Prompt.Slash
import Scriptlet.Script

/-!
# The interactive prompt

The prompt keeps an environment from one submitted text to the next. A text
is freed of invisible characters; a blank one is passed over, a word such as
`exit` ends the session, a command is carried out, and everything else is run
as a program. The result is printed unless it is null. A failure of the
language itself is printed, too; any other failure ends the session.
-/

namespace Scriptlet

/-- Something that the prompt shows. -/
inductive Output where
  /-- The greeting. -/
  | banner
  /-- The mark that asks for a text. -/
  | mark
  /-- The tree of a program. -/
  | tree (text : String)
  /-- The value of a program. -/
  | result (value : Value)
  /-- The failure of a program. -/
  | failure (message : String)
  /-- Where a failure happened. -/
  | traceback
  /-- The answer to a command. -/
  | notice (text : String)
  /-- A complaint about a command. -/
  | complaint (text : String)
  /-- A screen that is cleared. -/
  | cleared
  /-- A line that is interrupted. -/
  | interrupted
  /-- The end of the input. -/
  | ended

namespace Output

/-- What is written to the standard output. -/
def out : Output → String
  | banner =>
    "\nWrek programming language v0.1 - Ctrl-D or 'exit' to leave, / for commands\n"
  | mark => "Wrek > \n"
  | tree text => text
  | result value => value.print ++ "\n"
  | notice text => text ++ "\n"
  | cleared => "<clear>\n"
  | interrupted => "KeyboardInterrupt\n"
  | ended => "\n"
  | failure _ | traceback | complaint _ => ""

/-- What is written to the standard error. -/
def err : Output → String
  | failure message => "Error: " ++ message ++ "\n"
  | traceback => "\nPython traceback:\n<traceback>\n"
  | complaint text => text ++ "\n"
  | banner | mark | tree _ | result _ | notice _ | cleared | interrupted | ended => ""

/-- All that is written to the standard output. -/
def allOut (outputs : List Output) : String :=
  String.join (outputs.map out)

/-- All that is written to the standard error. -/
def allErr (outputs : List Output) : String :=
  String.join (outputs.map err)

end Output

/-- What the prompt remembers. -/
structure Prompt where
  /-- The environment of the programs. -/
  environment : Environment
  /-- Whether the tree of each program is shown. -/
  showTree : Bool
  /-- Whether failures come with a traceback. -/
  trace : Trace

namespace Prompt

/-- The prompt at the start of a session. -/
def start (trace : Trace) : Prompt :=
  ⟨.global, false, trace⟩

/-- The characters that are taken out of a submitted text. -/
def invisible : List Char :=
  ['\u200b', '\u200c', '\u200d', '\ufeff', '\u00a0', '\r']

/-- A text without its invisible characters. -/
def normalize (text : String) : String :=
  String.ofList (text.toList.filter fun c => !invisible.contains c)

/-- The word for a setting. -/
def stateWord (on : Bool) : String :=
  if on then "on" else "off"

/-- Carries out a command. -/
def command (p : Prompt) : Slash → List Output × Prompt
  | .clear => ([.cleared], p)
  | .tree =>
    ([.notice ("AST echo: " ++ stateWord (!p.showTree))], { p with showTree := !p.showTree })
  | .trace on =>
    let trace := p.trace.switch on
    ([.notice ("Python traceback: " ++ stateWord trace.isOn)], { p with trace := trace })
  | .traceUsage => ([.complaint "Usage: /py-traceback [on|off]"], p)
  | .reset => ([.notice "Environment reset."], { p with environment := .global })
  | .unknown word => ([.complaint ("Unknown command: " ++ word)], p)

/-- Carries out a line if it is a command. -/
def slash? (p : Prompt) (line : String) : Option (List Output × Prompt) :=
  (Slash.ofLine? line).map p.command

/-- What running a text leads to. -/
structure Turn where
  /-- What is shown. -/
  outputs : List Output
  /-- The failure that is not shown, if there is one. -/
  escaped : Option Failure
  /-- What the prompt remembers afterwards. -/
  prompt : Prompt

/-- What is shown of a failure of the language. -/
def report (p : Prompt) (failure : Failure) : List Output :=
  .failure failure.message :: if p.trace.isOn then [.traceback] else []

/-- The turn that ends with a failure. -/
def fail (p : Prompt) (shown : List Output) (failure : Failure) : Turn :=
  if failure.isReported then ⟨shown ++ p.report failure, none, p⟩
  else ⟨shown, some failure, p⟩

/-- Runs a text as a program. -/
def evalText (p : Prompt) (text : String) : Turn :=
  match parse text with
  | .error failure => p.fail [] failure
  | .ok node =>
    let shown := if p.showTree then [Output.tree node.dump] else []
    match evaluate node p.environment with
    | .ok value env =>
      ⟨shown ++ (if value.isNull then [] else [.result value]), none,
        { p with environment := env }⟩
    | .error failure env => { p with environment := env }.fail shown failure

/-- Something that happens at the prompt. -/
inductive Event where
  /-- A text is submitted. -/
  | submit (text : String)
  /-- The line is interrupted. -/
  | interrupt

/-- The words that end a session. -/
def exitWords : List String :=
  ["exit", "quit"]

/-- How the prompt answers an event: by going on, or by ending the session. -/
inductive Answer where
  /-- The session goes on. -/
  | next (outputs : List Output) (prompt : Prompt)
  /-- The session ends as the user asked. -/
  | exit
  /-- The session ends with a failure. -/
  | crash (outputs : List Output) (failure : Failure) (prompt : Prompt)

/-- The answer to a submitted text. -/
def respond (p : Prompt) (text : String) : Answer :=
  let text := normalize text
  let trimmed := Text.trim text
  if trimmed = "" then .next [] p
  else if exitWords.contains trimmed then .exit
  else
    match p.slash? text with
    | some (outputs, p) => .next outputs p
    | none =>
      let turn := p.evalText text
      match turn.escaped with
      | none => .next turn.outputs turn.prompt
      | some failure => .crash turn.outputs failure turn.prompt

/-- The answer to an event. -/
def answer (p : Prompt) : Event → Answer
  | .submit text => p.respond text
  | .interrupt => .next [.interrupted] p

/-- All that happens in a session. -/
structure Transcript where
  /-- What is shown before each mark, with the mark, and after the last one. -/
  chunks : List (List Output)
  /-- How many events are not reached. -/
  unread : Nat
  /-- The failure that ended the session, if there is one. -/
  escaped : Option Failure
  /-- What the prompt remembers at the end. -/
  prompt : Prompt

/-- What follows a mark. -/
def converse (p : Prompt) : List Event → Transcript
  | [] => ⟨[[.ended]], 0, none, p⟩
  | event :: rest =>
    match p.answer event with
    | .next outputs p =>
      let later := p.converse rest
      { later with chunks := (outputs ++ [.mark]) :: later.chunks }
    | .exit => ⟨[[]], rest.length, none, p⟩
    | .crash outputs failure p => ⟨[outputs], rest.length, some failure, p⟩

/-- A whole session. -/
def session (trace : Trace) (events : List Event) : Transcript :=
  let later := (start trace).converse events
  { later with chunks := [.banner, .mark] :: later.chunks }

end Prompt

end Scriptlet
