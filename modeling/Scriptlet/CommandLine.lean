import Scriptlet.Node.Tree
import Scriptlet.Path
import Scriptlet.Script
import Scriptlet.Text.Trim

/-!
# The command line programs

The runner evaluates a program and prints its value, or with `--ast` prints
its tree. The program is read from the standard input, from a file, or is the
argument itself if no file has that name. The dumper reads a program from the
standard input or a file and prints its tree.

Both are described by what they write and how they end, given what the name
in their arguments stands for. Text is read as UTF-8 with any kind of line
end.
-/

namespace Scriptlet.CommandLine

/-- How a program ends. -/
inductive Ending where
  /-- Well. -/
  | success
  /-- With an error that has been written. -/
  | failure
  /-- With a message about how it was called. -/
  | stop (message : String)
  /-- With a failure that is not one of the language. -/
  | escaped (failure : Failure)
  /-- With a directory in the place of a file. -/
  | isDirectory (name : String)
  /-- Without a file of that name. -/
  | noFile (name : String)
  /-- With a file in the place of a directory. -/
  | notDirectory (name : String)
  /-- With a name that is too long. -/
  | nameTooLong (name : String)
  /-- With a name that has a null character. -/
  | nullInName
  /-- With a text that is not UTF-8. -/
  | undecodable

/-- The message of an ending that the program does not handle itself. -/
def Ending.message : Ending → String
  | success | failure | undecodable => ""
  | stop message => message
  | escaped cause => cause.message
  | isDirectory name => "[Errno 21] Is a directory: " ++ Text.quoted name
  | noFile name => "[Errno 2] No such file or directory: " ++ Text.quoted name
  | notDirectory name => "[Errno 20] Not a directory: " ++ Text.quoted name
  | nameTooLong name => "[Errno 36] File name too long: " ++ Text.quoted name
  | nullInName => "embedded null byte"

/-- What a program writes and how it ends. -/
structure Report where
  /-- What it writes to the standard output. -/
  out : String
  /-- What it writes to the standard error. -/
  err : String
  /-- How it ends. -/
  ending : Ending

namespace Report

/-- Nothing is written. -/
def silent (ending : Ending) : Report :=
  ⟨"", "", ending⟩

/-- A text is written. -/
def success (text : String) : Report :=
  ⟨text, "", .success⟩

/-- A failure of the language is written after the given words; any other
failure is not handled. -/
def ofFailure (words : String) (failure : Failure) : Report :=
  if failure.isReported then ⟨"", words ++ failure.message ++ "\n", .failure⟩
  else silent (.escaped failure)

end Report

/-- The text that bytes stand for. -/
def decode (content : ByteArray) : Except Ending String :=
  match String.fromUTF8? content with
  | some text => .ok (String.ofList (Text.unifyLineEnds text.toList))
  | none => .error .undecodable

/-- What the arguments of the runner ask for. -/
structure Request where
  /-- Whether the tree is printed and not the value. -/
  showTree : Bool
  /-- The argument that gives the source; the standard input without one. -/
  source : Option String

/-- The argument that switches to the tree. -/
def treeOption : String :=
  "--ast"

/-- The arguments of the runner other than the option. -/
def operands (arguments : List String) : List String :=
  arguments.filter (· != treeOption)

/-- The request that the arguments of the runner make. -/
def request (arguments : List String) : Except Ending Request :=
  let showTree := arguments.contains treeOption
  match operands arguments with
  | [] => .ok ⟨showTree, none⟩
  | [source] => .ok ⟨showTree, if source = "" || source = "-" then none else some source⟩
  | _ :: extra :: _ => .error (.stop ("Unexpected argument: " ++ extra))

/-- The text from the standard input, which may not be empty. -/
def standardInput (input : ByteArray) : Except Ending String := do
  let text ← decode input
  if text = "" then .error (.stop "No input provided on stdin") else .ok text

/-- The source that a request asks for. -/
def source (request : Request) (named : String → Path.Target) (input : ByteArray) :
    Except Ending String :=
  match request.source with
  | none => standardInput input
  | some argument =>
    let path := Path.plain argument
    match named path with
    | .file content => decode content
    | .directory => .error (.isDirectory path)
    | .tooLong => .error (.nameTooLong path)
    | .nothing | .belowFile | .malformed => .ok argument

/-- What the runner makes of a source. -/
def evaluateSource (showTree : Bool) (source : String) : Report :=
  if showTree then
    match parse source with
    | .ok node => .success node.dump
    | .error failure => .ofFailure "Error: " failure
  else
    match run source .global with
    | .ok value _ => .success (value.print ++ "\n")
    | .error failure _ => .ofFailure "Error: " failure

/-- The runner. -/
def runner (arguments : List String) (named : String → Path.Target) (input : ByteArray) :
    Report :=
  match request arguments with
  | .error ending => .silent ending
  | .ok request =>
    match source request named input with
    | .error ending => .silent ending
    | .ok text => evaluateSource request.showTree text

/-- The argument that names the file of the dumper. -/
def dumperFile? (arguments : List String) : Option String :=
  (arguments.filter fun argument => !(['-', '-'].isPrefixOf argument.toList)).head?.filter
    (· != "-")

/-- The source that the arguments of the dumper ask for. -/
def dumperSource (arguments : List String) (named : String → Path.Target) (input : ByteArray) :
    Except Ending String :=
  match dumperFile? arguments with
  | none => decode input
  | some name =>
    match named name with
    | .file content => decode content
    | .directory => .error (.isDirectory name)
    | .nothing => .error (.noFile name)
    | .belowFile => .error (.notDirectory name)
    | .tooLong => .error (.nameTooLong name)
    | .malformed => .error .nullInName

/-- The dumper. -/
def dumper (arguments : List String) (named : String → Path.Target) (input : ByteArray) :
    Report :=
  match dumperSource arguments named input with
  | .error ending => .silent ending
  | .ok text =>
    match parse text with
    | .ok node => .success (node.dump ++ "\n")
    | .error failure => .ofFailure "Parse error: " failure

end Scriptlet.CommandLine
