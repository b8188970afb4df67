/-!
# Programs as trees of nodes

A program is a tree of nodes. One type serves for all of them, because a node
of any kind may stand wherever a node can: the evaluator decides which trees
have a meaning. A tree that was put together by hand may also hold a datum
that is no node at all.
-/

namespace Scriptlet

/-- A value in the place of a node that is none. -/
inductive Datum where
  | nothing
  | truth (value : Bool)
  | integer (value : Int)
  | text (value : String)
  | list (items : List Datum)

mutual

/-- A node of a program tree. -/
inductive Node where
  /-- A sequence of statements. -/
  | program (body : List Node)
  /-- The declaration of a variable or a constant. -/
  | declaration (name : String) (constant : Bool) (value : Option Node)
  /-- The declaration of a function. -/
  | function (name : String) (parameters : List String) (body : List Node)
  /-- An assignment to a target, which need not be assignable. -/
  | assignment (target value : Node)
  /-- An operator between two operands. -/
  | binary (left right : Node) (operator : String)
  /-- A call with its arguments. -/
  | call (callee : Node) (arguments : List Node)
  /-- A member of an object, by its name or by a computed key. -/
  | member (object property : Node) (computed : Bool)
  /-- The use of a name. -/
  | identifier (name : String)
  /-- A number. -/
  | number (value : Float)
  /-- An object with its properties. -/
  | object (properties : List Property)
  /-- A property that stands alone. -/
  | property (content : Property)
  /-- A datum that is no node. -/
  | foreign (datum : Datum)

/-- A property of an object. -/
inductive Property where
  /-- A key that takes the value of the variable of the same name. -/
  | shorthand (key : String)
  /-- A key with the node that gives its value. -/
  | pair (key : String) (value : Node)

end

instance : Inhabited Datum :=
  ⟨.nothing⟩

instance : Inhabited Node :=
  ⟨.program []⟩

instance : Inhabited Property :=
  ⟨.shorthand ""⟩

namespace Datum

/-- The name of the type of a datum in messages. -/
def typeName : Datum → String
  | nothing => "NoneType"
  | truth _ => "bool"
  | integer _ => "int"
  | text _ => "str"
  | list _ => "list"

end Datum

/-- The key of a property. -/
def Property.key : Property → String
  | shorthand key => key
  | pair key _ => key

namespace Node

/-- The name of the kind of a node in messages. -/
def kind : Node → String
  | program _ => "Program"
  | declaration .. => "VarDeclaration"
  | function .. => "FunctionDeclaration"
  | assignment .. => "AssignmentExpr"
  | binary .. => "BinaryExpr"
  | call .. => "CallExpr"
  | member .. => "MemberExpr"
  | identifier _ => "Identifier"
  | number _ => "NumericLiteral"
  | object _ => "ObjectLiteral"
  | property _ => "Property"
  | foreign datum => datum.typeName

/-- Whether a node is the use of a name. -/
def isIdentifier : Node → Bool
  | identifier _ => true
  | _ => false

/-- The name that a node uses, if it is the use of a name. -/
def name? : Node → Option String
  | identifier name => some name
  | _ => none

end Node

mutual

/-- Whether two data are the same. -/
def Datum.same : Datum → Datum → Bool
  | .nothing, .nothing => true
  | .truth a, .truth b => a == b
  | .integer a, .integer b => a == b
  | .text a, .text b => a == b
  | .list as, .list bs => sameData as bs
  | _, _ => false

/-- Whether two lists hold the same data. -/
def sameData : List Datum → List Datum → Bool
  | [], [] => true
  | a :: as, b :: bs => a.same b && sameData as bs
  | _, _ => false

end

mutual

/-- Whether two trees are the same, numbers being compared as numbers. -/
def Node.same : Node → Node → Bool
  | .program as, .program bs => sameNodes as bs
  | .declaration x c none, .declaration y d none => x == y && c == d
  | .declaration x c (some a), .declaration y d (some b) => x == y && c == d && a.same b
  | .function x ps as, .function y qs bs => x == y && ps == qs && sameNodes as bs
  | .assignment t a, .assignment u b => t.same u && a.same b
  | .binary a b o, .binary c d p => a.same c && b.same d && o == p
  | .call a as, .call b bs => a.same b && sameNodes as bs
  | .member a p c, .member b q d => a.same b && p.same q && c == d
  | .identifier x, .identifier y => x == y
  | .number x, .number y => x == y
  | .object ps, .object qs => sameProperties ps qs
  | .property p, .property q => p.same q
  | .foreign a, .foreign b => a.same b
  | _, _ => false

/-- Whether two properties are the same. -/
def Property.same : Property → Property → Bool
  | .shorthand x, .shorthand y => x == y
  | .pair x a, .pair y b => x == y && a.same b
  | _, _ => false

/-- Whether two lists hold the same nodes. -/
def sameNodes : List Node → List Node → Bool
  | [], [] => true
  | a :: as, b :: bs => a.same b && sameNodes as bs
  | _, _ => false

/-- Whether two lists hold the same properties. -/
def sameProperties : List Property → List Property → Bool
  | [], [] => true
  | p :: ps, q :: qs => p.same q && sameProperties ps qs
  | _, _ => false

end

end Scriptlet
