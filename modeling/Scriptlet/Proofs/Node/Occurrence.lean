import Scriptlet.Node

/-!
# What occurs in a tree

The nodes of a tree are listed from the root on, those inside functions, calls
and members included. The names of a tree are those that its nodes use or
declare.
-/

namespace Scriptlet

mutual

/-- A node and all nodes inside it. -/
def Node.subnodes : Node → List Node
  | .program body => .program body :: subnodesOf body
  | .declaration name constant (some value) =>
    .declaration name constant (some value) :: value.subnodes
  | .declaration name constant none => [.declaration name constant none]
  | .function name parameters body => .function name parameters body :: subnodesOf body
  | .assignment target value => .assignment target value :: (target.subnodes ++ value.subnodes)
  | .binary left right operator =>
    .binary left right operator :: (left.subnodes ++ right.subnodes)
  | .call callee arguments => .call callee arguments :: (callee.subnodes ++ subnodesOf arguments)
  | .member object property computed =>
    .member object property computed :: (object.subnodes ++ property.subnodes)
  | .identifier name => [.identifier name]
  | .number value => [.number value]
  | .object properties => .object properties :: subnodesOfProperties properties
  | .property content => .property content :: content.subnodes
  | .foreign datum => [.foreign datum]

/-- The nodes inside a property. -/
def Property.subnodes : Property → List Node
  | .shorthand _ => []
  | .pair _ value => value.subnodes

/-- The given nodes and all nodes inside them. -/
def subnodesOf : List Node → List Node
  | [] => []
  | node :: rest => node.subnodes ++ subnodesOf rest

/-- The nodes inside properties. -/
def subnodesOfProperties : List Property → List Node
  | [] => []
  | property :: rest => property.subnodes ++ subnodesOfProperties rest

end

/-- The key of a property that takes the value of the variable of the same
name. -/
def Property.shorthand? : Property → Option String
  | shorthand key => some key
  | pair _ _ => none

namespace Node

/-- A node is the first of its nodes. -/
theorem mem_subnodes_self (n : Node) : n ∈ n.subnodes := by
  cases n with
  | declaration name constant value => cases value <;> simp [subnodes]
  | _ => simp [subnodes]

/-- The nodes of a list of trees are those of its trees. -/
theorem mem_subnodesOf {m : Node} {nodes : List Node} :
    m ∈ subnodesOf nodes ↔ ∃ n ∈ nodes, m ∈ n.subnodes := by
  induction nodes with
  | nil => simp [subnodesOf]
  | cons n rest ih => simp [subnodesOf, ih]

/-- The names that a node itself uses or declares, without those of the nodes
inside it. -/
def ownNames : Node → List String
  | identifier name => [name]
  | declaration name _ _ => [name]
  | object properties => properties.filterMap Property.shorthand?
  | _ => []

/-- The operator of a node. -/
def operator? : Node → Option String
  | binary _ _ operator => some operator
  | _ => none

/-- The name that a node itself assigns to. -/
def assignedName? : Node → Option String
  | assignment (identifier name) _ => some name
  | _ => none

/-- Whether a node is an assignment or the declaration of a variable. -/
def isWriting : Node → Bool
  | assignment .. => true
  | declaration .. => true
  | _ => false

/-- The names that a tree assigns to. -/
def assignedNames (n : Node) : List String :=
  n.subnodes.filterMap assignedName?

/-- The names that occur in a tree. -/
def names (n : Node) : List String :=
  n.subnodes.flatMap ownNames

end Node

end Scriptlet
