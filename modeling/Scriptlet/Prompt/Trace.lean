import Scriptlet.Text.Trim

/-!
# The traceback setting

Whether errors come with a traceback is kept as a text, as in an environment
variable: it is on if the text is one of a few words, whatever their case and
the white space around them. Switching it on sets the text to `1`, switching
it off removes it.
-/

namespace Scriptlet

/-- The words that switch something on. -/
def onWords : List String :=
  ["1", "true", "yes", "on"]

/-- The words that switch something off. -/
def offWords : List String :=
  ["0", "false", "no", "off"]

/-- The text of the traceback setting, if it has one. -/
structure Trace where
  /-- The text. -/
  text : Option String
deriving DecidableEq, Repr

namespace Trace

/-- Whether tracebacks are on. -/
def isOn (t : Trace) : Bool :=
  match t.text with
  | some text => onWords.contains (Text.lowerCase (Text.trim text))
  | none => false

/-- The setting that is on or off. -/
def ofBool (on : Bool) : Trace :=
  ⟨if on then some "1" else none⟩

/-- Switches tracebacks on or off, or to the other state if neither is
given. -/
def switch (t : Trace) (on : Option Bool) : Trace :=
  ofBool (on.getD !t.isOn)

end Trace

end Scriptlet
