import Scriptlet.Environment

/-!
# Native functions and the global scope

A native function gives a value and may print a text. The registry lists the
native functions by name, in the order in which the names were first
registered. A global scope has the constants `true`, `false`
and `null` and one constant for each native function.
-/

namespace Scriptlet

/-- The nanoseconds in a millisecond. -/
def nanosecondsPerMillisecond : Int :=
  1000000

/-- The result of a native function at a given time, in nanoseconds since the
epoch, and the text that it prints. -/
def Behaviour.call (arguments : List Value) (time : Int) : Behaviour → Value × String
  | .print => (.null, " ".intercalate (arguments.map Value.print) ++ "\n")
  | .clock => (.number (Number.ofInt (time.fdiv nanosecondsPerMillisecond)), "")
  | .always result => (result, "")

/-- The native functions, by name. -/
structure Registry where
  /-- The behaviour of each name, in the order of registration. -/
  entries : List (String × Behaviour)

namespace Registry

/-- The native functions that are always there. -/
def standard : Registry :=
  ⟨[("print", .print), ("time", .clock)]⟩

/-- Registers a native function; a name that is there already keeps its
place. -/
def register (r : Registry) (name : String) (behaviour : Behaviour) : Registry :=
  ⟨setKey name behaviour r.entries⟩

/-- The registered names. -/
def names (r : Registry) : List String :=
  r.entries.map (·.1)

/-- The constants of a global scope, in order. -/
def globals (r : Registry) : List Variable :=
  [⟨"true", .bool true, true⟩, ⟨"false", .bool false, true⟩, ⟨"null", .null, true⟩] ++
    r.entries.map fun entry => ⟨entry.1, .native entry.1 entry.2, true⟩

/-- A new global scope; a native function cannot have the name of another
constant. -/
def globalScope (r : Registry) : Except EvalError Scope :=
  r.globals.foldlM Scope.declare .empty

/-- The standard native functions have names of their own, so a global scope has
all its constants. -/
theorem globalScope_standard : standard.globalScope = .ok ⟨standard.globals⟩ := by
  rfl

end Registry

/-- The global environment with the native functions that are always
there. -/
def Environment.global : Environment :=
  .root ⟨Registry.standard.globals⟩

end Scriptlet
