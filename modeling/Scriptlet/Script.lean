import Scriptlet.Evaluation
import Scriptlet.Parser.Statement
import Scriptlet.Registry
import Scriptlet.Token.Scanner

/-!
# Running source text

Source text is cut into tokens, parsed and evaluated. Each step can fail in
its own way. The failures of the language itself are reported to the user; a
number that cannot be read, or a tree that does not come from source text, is
not.
-/

namespace Scriptlet

/-- How running a source text can fail. -/
inductive Failure where
  /-- The text is no sequence of tokens. -/
  | lexical (error : LexError)
  /-- The tokens are no program. -/
  | grammatical (error : ParseError)
  /-- A number is written with digits that have no decimal value. -/
  | unreadable (text : String)
  /-- Parsing does not end. -/
  | endless
  /-- The program cannot be evaluated. -/
  | evaluation (error : EvalError)

namespace Failure

/-- The failure of a parser. -/
def ofParse : ParseFailure → Failure
  | .rejected error => .grammatical error
  | .unreadable text => .unreadable text
  | .endless => .endless

/-- The message of the failure. -/
def message : Failure → String
  | lexical error => error.message
  | grammatical error => error.message
  | unreadable text => "could not convert string to float: " ++ Text.quoted text
  | endless => ""
  | evaluation error => error.message

/-- Whether the failure is one of the language itself. -/
def isReported : Failure → Bool
  | lexical _ | grammatical _ => true
  | evaluation (.foreign _) | evaluation (.unknownOperator _) => false
  | evaluation _ => true
  | unreadable _ | endless => false

end Failure

/-- The program that a source text spells. -/
def parse (source : String) : Except Failure Node :=
  match tokenize source with
  | .error error => .error (.lexical error)
  | .ok tokens =>
    match parseTokens tokens with
    | .error failure => .error (.ofParse failure)
    | .ok node => .ok node

/-- Evaluates a node in an environment. -/
def evaluate (node : Node) : EStateM Failure Environment Value :=
  fun env =>
    match node.eval env with
    | .ok value env => .ok value env
    | .error error env => .error (.evaluation error) env

/-- Parses a source text and evaluates it in an environment. -/
def run (source : String) : EStateM Failure Environment Value :=
  fun env =>
    match parse source with
    | .error failure => .error failure env
    | .ok node => evaluate node env

end Scriptlet
