/-!
# Paths

A path is a text with `/` between its components. Its plain form leaves out
the components that change nothing. What a path stands for is found in a
directory that has just the given files: components are followed from the
left, and the first one that cannot be followed decides.
-/

namespace Scriptlet.Path

/-- What a path stands for. -/
inductive Target where
  /-- A file with its content. -/
  | file (content : ByteArray)
  /-- A directory. -/
  | directory
  /-- Nothing. -/
  | nothing
  /-- Nothing, since a file is in the place of a directory on the way. -/
  | belowFile
  /-- Nothing, since the path or a component is longer than any can be. -/
  | tooLong
  /-- Nothing, since the path has a character that none can have. -/
  | malformed

/-- The most bytes that a component can have. -/
def maxComponentSize : Nat :=
  255

/-- The most bytes that a path can have. -/
def maxSize : Nat :=
  4095

/-- The root that a path starts with, which is empty for a relative path. Two
slashes are a root of their own; any other number of them counts as one. -/
def root (path : String) : String :=
  match (path.toList.takeWhile (· == '/')).length with
  | 0 => ""
  | 2 => "//"
  | _ => "/"

/-- Whether a component stays in its directory. -/
def isIdle (component : String) : Bool :=
  component == "" || component == "."

/-- The components of a path that lead somewhere. -/
def components (path : String) : List String :=
  (path.splitOn "/").filter fun component => !isIdle component

/-- A path in its plain form. -/
def plain (path : String) : String :=
  let joined := root path ++ "/".intercalate (components path)
  if joined = "" then "." else joined

/-- Whether a path says by its end that it is one of a directory. -/
def asksDirectory (path : String) : Bool :=
  ((path.splitOn "/").getLast?.map isIdle).getD false

/-- Whether a path goes on after the given file. -/
def goesBelow (file path : String) : Bool :=
  (file.toList ++ ['/']).isPrefixOf (plain path).toList

/-- What a path stands for in a directory that has just the given files.
Every directory above that one counts as empty. -/
def find (files : List (String × ByteArray)) (path : String) : Target :=
  if path.toList.contains '\x00' then .malformed
  else if path = "" then .nothing
  else if maxSize < path.utf8ByteSize then .tooLong
  else
    match (components path).dropWhile (· == "..") with
    | [] => .directory
    | component :: _ =>
      if maxComponentSize < component.utf8ByteSize then .tooLong
      else
        match files.find? fun file => file.1 == plain path with
        | some file => if asksDirectory path then .belowFile else .file file.2
        | none => if files.any fun file => goesBelow file.1 path then .belowFile else .nothing

end Scriptlet.Path
