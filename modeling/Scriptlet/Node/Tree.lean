import Scriptlet.Node
import Scriptlet.Number.Printed
import Scriptlet.Text.Quoted

/-!
# Labelled trees and their printed form

For inspection a program is turned into a labelled tree: a branch for each
node, labelled with its kind, and a leaf for each name, flag, operator and
number, labelled with the field that it comes from. The printed form has two
spaces for each level. A branch whose only child is a leaf takes one line,
with a tab before the text of the leaf; the children of any other branch
follow on lines of their own, one level deeper.
-/

namespace Scriptlet

/-- A labelled tree. -/
inductive Tree where
  /-- A text with the name of its field. -/
  | leaf (field text : String)
  /-- A node with its children. -/
  | branch (label : String) (children : List Tree)

namespace Tree

/-- The spaces before a line of the given level. -/
def indentation (level : Nat) : String :=
  String.ofList (List.replicate (2 * level) ' ')

mutual

/-- The lines of a tree at a level. -/
def renderAt (level : Nat) : Tree → String
  | leaf _ text => indentation level ++ text ++ "\n"
  | branch label [leaf _ text] => indentation level ++ label ++ "\t" ++ text ++ "\n"
  | branch label children => indentation level ++ label ++ "\n" ++ renderAll (level + 1) children

/-- The lines of several trees at a level. -/
def renderAll (level : Nat) : List Tree → String
  | [] => ""
  | tree :: rest => renderAt level tree ++ renderAll level rest

end

/-- The printed form of a tree. -/
def render (tree : Tree) : String :=
  tree.renderAt 0

end Tree

/-- The text of a truth value in a tree. -/
def Tree.flag (value : Bool) : String :=
  if value then "true" else "false"

mutual

/-- The text of a datum inside a list. -/
def Datum.inList : Datum → String
  | .nothing => "None"
  | .truth value => if value then "True" else "False"
  | .integer value => toString value
  | .text value => Text.quoted value
  | .list items => "[" ++ ", ".intercalate (allInList items) ++ "]"

/-- The texts of data inside a list. -/
def allInList : List Datum → List String
  | [] => []
  | item :: rest => item.inList :: allInList rest

end

namespace Datum

/-- The text of a datum. -/
def display : Datum → String
  | text value => value
  | datum => datum.inList

/-- What a datum adds to a tree as the content of a field. -/
def leaves (field : String) : Datum → List Tree
  | nothing => []
  | truth value => [.leaf field (Tree.flag value)]
  | list items => items.map fun item => .leaf field item.display
  | datum => [.leaf field datum.display]

end Datum

mutual

/-- The labelled tree of a node. -/
def Node.toTree : Node → Tree
  | .program body => .branch "Program" (itemTrees "BODY" body)
  | .declaration name constant value =>
    .branch "VarDeclaration" (.leaf "IDENTIFIER" name :: .leaf "CONSTANT" (Tree.flag constant) ::
      match value with
      | some node => node.fieldTrees "VALUE"
      | none => [])
  | .function name parameters body =>
    .branch "FunctionDeclaration"
      (.leaf "NAME" name :: parameters.map (.leaf "PARAMETERS" ·) ++ itemTrees "BODY" body)
  | .assignment target value =>
    .branch "AssignmentExpr" (target.fieldTrees "ASSIGNEE" ++ value.fieldTrees "VALUE")
  | .binary left right operator =>
    .branch "BinaryExpr"
      (left.fieldTrees "LEFT" ++ right.fieldTrees "RIGHT" ++ [.leaf "OPERATOR" operator])
  | .call callee arguments =>
    .branch "CallExpr" (callee.fieldTrees "CALLER" ++ itemTrees "ARGS" arguments)
  | .member object property computed =>
    .branch "MemberExpr" (object.fieldTrees "OBJECT" ++ property.fieldTrees "PROPERTY" ++
      [.leaf "COMPUTED" (Tree.flag computed)])
  | .identifier name => .branch "Identifier" [.leaf "SYMBOL" name]
  | .number value => .branch "NumericLiteral" [.leaf "VALUE" (Number.print value)]
  | .object properties => .branch "ObjectLiteral" (propertyTrees properties)
  | .property content => content.toTree
  | .foreign datum => .leaf "" datum.display

/-- What a node adds to a tree as the content of a field. -/
def Node.fieldTrees (field : String) : Node → List Tree
  | .foreign datum => datum.leaves field
  | node => [node.toTree]

/-- What a list of nodes adds to a tree as the content of a field. -/
def itemTrees (field : String) : List Node → List Tree
  | [] => []
  | .foreign datum :: rest => .leaf field datum.display :: itemTrees field rest
  | node :: rest => node.toTree :: itemTrees field rest

/-- The labelled tree of a property. -/
def Property.toTree : Property → Tree
  | .shorthand key => .branch "Property" [.leaf "KEY" key]
  | .pair key value => .branch "Property" (.leaf "KEY" key :: value.fieldTrees "VALUE")

/-- The labelled trees of properties. -/
def propertyTrees : List Property → List Tree
  | [] => []
  | property :: rest => property.toTree :: propertyTrees rest

end

/-- The printed form of the tree of a node. -/
def Node.dump (node : Node) : String :=
  node.toTree.render

end Scriptlet
