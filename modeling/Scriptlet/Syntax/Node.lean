import Scriptlet.Position
/-!
The tree of a program. Every construct is a node: what it is, and where it starts. Operators that
stand in a row share one flat node.
-/
namespace Scriptlet

inductive ComparisonOperator where
  | equal
  | notEqual
  | lessEqual
  | less
  | greaterEqual
  | greater
deriving DecidableEq

inductive ArithmeticOperator where
  | add
  | subtract
  | multiply
  | divide
  | remainder
deriving DecidableEq

inductive UnaryOperator where
  | plus
  | minus
  | not
deriving DecidableEq

structure Parameter where
  name : String
  mutable : Bool
deriving DecidableEq

mutual

/-- A construct and the place where it starts. -/
structure Node where
  kind : NodeKind
  position : Position

inductive NodeKind where
  | statements (body : List Node)
  | whileLoop (condition body : Node)
  /-- Conditions with their bodies, tried in order, and the body taken if none holds. -/
  | conditional (branches : List (Node × Node)) (otherwise : Option Node)
  | function (params : List Parameter) (body : Node)
  /-- A value followed by calls, indices and property names. -/
  | call (callee : Node) (suffixes : List Suffix)
  | assignment (mutable : Bool) (name : String) (value : Node)
  | propertyAssignment (object : Node) (name : String) (value : Node)
  | disjunction (operands : List Node)
  | conjunction (operands : List Node)
  | comparison (left : Node) (op : ComparisonOperator) (right : Node)
  | unary (op : UnaryOperator) (operand : Node)
  | arithmetic (first : Node) (rest : List (ArithmeticOperator × Node))
  | identifier (name : String)
  | object (properties : List (String × Node))
  | array (items : List Node)
  | number (digits : String)
  | bool (value : Bool)
  | undefined
  /-- Texts and expressions that are written one after the other. -/
  | template (parts : List Node)
  | text (content : String)

/-- What is done to a value, and the place of the sign that says so. -/
structure Suffix where
  kind : SuffixKind
  position : Position

inductive SuffixKind where
  | arguments (items : List Node)
  | index (place : Node)
  | property (name : String)

end

namespace ComparisonOperator

def sign : ComparisonOperator → String
  | equal => "=="
  | notEqual => "!="
  | lessEqual => "<="
  | less => "<"
  | greaterEqual => ">="
  | greater => ">"

end ComparisonOperator

namespace ArithmeticOperator

def sign : ArithmeticOperator → String
  | add => "+"
  | subtract => "-"
  | multiply => "*"
  | divide => "/"
  | remainder => "%"

end ArithmeticOperator

namespace UnaryOperator

def sign : UnaryOperator → String
  | plus => "+"
  | minus => "-"
  | not => "!"

end UnaryOperator
end Scriptlet
