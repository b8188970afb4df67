import Scriptlet.Prompt.Trace

/-!
# Slash commands

A submitted line that starts with a slash is a command to the prompt itself.
Its first word is the command, the rest its argument. While a command is
typed, the commands that start with what stands before the cursor are
offered.
-/

namespace Scriptlet

/-- A command to the prompt. -/
inductive Slash where
  /-- Clears the screen. -/
  | clear
  /-- Shows the tree of each program, or does so no longer. -/
  | tree
  /-- Switches tracebacks on or off, or to the other state. -/
  | trace (on : Option Bool)
  /-- Asks for tracebacks in a way that is not understood. -/
  | traceUsage
  /-- Starts again with a new environment. -/
  | reset
  /-- Is no command. -/
  | unknown (word : String)
deriving DecidableEq, Repr

namespace Slash

/-- The commands with their descriptions, in order. -/
def descriptions : List (String × String) :=
  [("/ast", "Toggle printing the parsed AST"),
    ("/clear", "Clear the terminal screen"),
    ("/py-traceback", "Toggle Python traceback on errors"),
    ("/reset", "Reset the REPL environment")]

/-- What the argument of the traceback command asks for. -/
def ofTraceArgument (argument : String) : Slash :=
  if onWords.contains (Text.lowerCase argument) then trace (some true)
  else if offWords.contains (Text.lowerCase argument) then trace (some false)
  else if argument = "" then trace none
  else traceUsage

/-- The command that a line gives; `none` if it does not start with a
slash. -/
def ofLine? (line : String) : Option Slash :=
  let trimmed := Text.trim line
  if trimmed.toList.head? = some '/' then
    let (word, argument) := Text.splitWord trimmed
    if word = "/clear" then some clear
    else if word = "/ast" then some tree
    else if word = "/py-traceback" then some (ofTraceArgument argument)
    else if word = "/reset" then some reset
    else some (unknown word)
  else none

/-- A completion that is offered. -/
structure Completion where
  /-- The command. -/
  command : String
  /-- How many characters before the cursor it replaces. -/
  replaced : Nat
  /-- What the command does. -/
  description : String
deriving DecidableEq, Repr

/-- The completions of a text before a cursor; without a cursor, of the whole
text. -/
def completions (text : String) (cursor : Option Nat) : List Completion :=
  let before := text.toList.take (cursor.getD text.length)
  if before.head? = some '/' then
    (descriptions.filter fun entry => before.isPrefixOf entry.1.toList).map fun entry =>
      ⟨entry.1, before.length, entry.2⟩
  else []

end Slash

end Scriptlet
