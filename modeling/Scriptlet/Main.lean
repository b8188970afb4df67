import Scriptlet.CommandLine
import Scriptlet.Prompt

/-!
# Entry points

The runner, the dumper and the interactive prompt, with the standard streams,
the file system and the process environment in the place of their
descriptions. All decisions are made by those; here is only reading and
writing.
-/

namespace Scriptlet.Shell

open CommandLine

/-- The rest of a stream, after what has been collected. -/
partial def readAll (stream : IO.FS.Stream) (collected : ByteArray) : IO ByteArray := do
  let chunk ← stream.read 65536
  if chunk.isEmpty then return collected
  else readAll stream (collected ++ chunk)

/-- The standard input, if a program asks for it. -/
def inputIf (wanted : Bool) : IO ByteArray := do
  if wanted then readAll (← IO.getStdin) .empty else return .empty

/-- What a path stands for. A directory can be opened but not read, so that
failure names no file. -/
def find (path : String) : IO Path.Target := do
  if path.toList.contains '\x00' then return .malformed
  try
    return .file (← IO.FS.readBinFile path)
  catch
    | .noFileOrDirectory .. => return .nothing
    | .inappropriateType none .. => return .directory
    | .inappropriateType (some _) .. => return .belowFile
    | .invalidArgument .. => return .tooLong
    | other => throw other

/-- Writes what a program writes, and gives its exit code. -/
def finish (report : Report) : IO UInt32 := do
  IO.print report.out
  IO.eprint report.err
  match report.ending with
  | .success => return 0
  | .failure => return 1
  | ending =>
    IO.eprintln ending.message
    return 1

/-- The runner. -/
def run (arguments : List String) : IO UInt32 := do
  let argument :=
    match request arguments with
    | .ok request => request.source
    | .error _ => none
  let input ← inputIf argument.isNone
  let named ← (argument.map fun path => find (Path.plain path)).getD (pure .nothing)
  finish (runner arguments (fun _ => named) input)

/-- The dumper. -/
def dump (arguments : List String) : IO UInt32 := do
  let argument := dumperFile? arguments
  let input ← inputIf argument.isNone
  let named ← (argument.map find).getD (pure .nothing)
  finish (dumper arguments (fun _ => named) input)

/-- Shows what the prompt shows. -/
def display (outputs : List Output) : IO Unit := do
  IO.print (Output.allOut outputs)
  IO.eprint (Output.allErr outputs)
  (← IO.getStdout).flush

/-- The prompt, after its mark. -/
partial def converse (p : Prompt) : IO Unit := do
  let line ← (← IO.getStdin).getLine
  if line == "" then display [.ended]
  else
    match p.answer (.submit (String.ofList (line.toList.filter (· != '\n')))) with
    | .next outputs q =>
      display (outputs ++ [.mark])
      converse q
    | .exit => return ()
    | .crash outputs failure _ =>
      display outputs
      IO.eprintln failure.message

/-- The process variable with the traceback setting. -/
def traceVariable : String :=
  "WREK_DEBUG_PY_TRACE"

/-- The interactive prompt. -/
def prompt : IO Unit := do
  let trace ← IO.getEnv traceVariable
  display [.banner, .mark]
  converse (.start ⟨trace⟩)

end Scriptlet.Shell

/-- Runs the program that the arguments give. -/
def main (arguments : List String) : IO UInt32 :=
  Scriptlet.Shell.run arguments
