import Scriptlet.Outline
import Scriptlet.Syntax.Node
import Scriptlet.Text.Quoted
/-!
The outline of a program's tree.
-/
namespace Scriptlet

def Position.outline (p : Position) : Outline :=
  .record "Position" [("line", .atom (toString p.line)), ("column", .atom (toString p.column))]
    false

def Parameter.outline (p : Parameter) : Outline :=
  .record "Parameter"
    [("name", .atom (Text.quoted p.name)), ("mutable", .atom (toString p.mutable))] false

def ComparisonOperator.outline : ComparisonOperator → Outline
  | equal => .atom "Equal"
  | notEqual => .atom "NotEqual"
  | lessEqual => .atom "LessEqual"
  | less => .atom "Less"
  | greaterEqual => .atom "GreaterEqual"
  | greater => .atom "Greater"

def ArithmeticOperator.outline : ArithmeticOperator → Outline
  | add => .atom "Add"
  | subtract => .atom "Sub"
  | multiply => .atom "Mul"
  | divide => .atom "Div"
  | remainder => .atom "Mod"

def UnaryOperator.outline : UnaryOperator → Outline
  | plus => .atom "Plus"
  | minus => .atom "Minus"
  | not => .atom "Not"

mutual

def Node.outline : Node → Outline
  | ⟨kind, position⟩ =>
    .record "Node" [("kind", kind.outline), ("position", position.outline)] false

def NodeKind.outline : NodeKind → Outline
  | .statements body => .tuple "Statements" [.list (outlineNodes body)]
  | .whileLoop condition body =>
    .record "While" [("condition", condition.outline), ("body", body.outline)] false
  | .conditional branches otherwise =>
    .record "If" [("branches", .list (outlineBranches branches)),
      ("otherwise", outlineOption otherwise)] false
  | .function params body =>
    .record "Function" [("params", .list (params.map Parameter.outline)),
      ("body", body.outline)] false
  | .call callee suffixes =>
    .record "Call" [("callee", callee.outline),
      ("suffixes", .list (outlineSuffixes suffixes))] false
  | .assignment mutable name value =>
    .record "Assignment" [("mutable", .atom (toString mutable)),
      ("name", .atom (Text.quoted name)), ("value", value.outline)] false
  | .propertyAssignment object name value =>
    .record "PropertyAssignment" [("object", object.outline),
      ("name", .atom (Text.quoted name)), ("value", value.outline)] false
  | .disjunction operands => .tuple "LogicalOr" [.list (outlineNodes operands)]
  | .conjunction operands => .tuple "LogicalAnd" [.list (outlineNodes operands)]
  | .comparison left op right =>
    .record "Comparison" [("left", left.outline), ("op", op.outline),
      ("right", right.outline)] false
  | .unary op operand =>
    .record "Unary" [("op", op.outline), ("operand", operand.outline)] false
  | .arithmetic first rest =>
    .record "Binary" [("first", first.outline), ("rest", .list (outlineOperands rest))] false
  | .identifier name => .tuple "Identifier" [.atom (Text.quoted name)]
  | .object properties => .tuple "Object" [.list (outlineProperties properties)]
  | .array items => .tuple "Array" [.list (outlineNodes items)]
  | .number digits => .tuple "Number" [.atom (Text.quoted digits)]
  | .bool value => .tuple "Boolean" [.atom (toString value)]
  | .undefined => .atom "Undefined"
  | .template parts => .tuple "InterpolatedString" [.list (outlineNodes parts)]
  | .text content => .tuple "Text" [.atom (Text.quoted content)]

def Suffix.outline : Suffix → Outline
  | ⟨kind, position⟩ =>
    .record "Suffix" [("kind", kind.outline), ("position", position.outline)] false

def SuffixKind.outline : SuffixKind → Outline
  | .arguments items => .tuple "Arguments" [.list (outlineNodes items)]
  | .index place => .tuple "Index" [place.outline]
  | .property name => .tuple "Property" [.atom (Text.quoted name)]

def outlineNodes : List Node → List Outline
  | [] => []
  | node :: nodes => node.outline :: outlineNodes nodes

def outlineBranches : List (Node × Node) → List Outline
  | [] => []
  | (condition, body) :: branches =>
    .tuple "" [condition.outline, body.outline] :: outlineBranches branches

def outlineOption : Option Node → Outline
  | none => .atom "None"
  | some node => .tuple "Some" [node.outline]

def outlineSuffixes : List Suffix → List Outline
  | [] => []
  | suffix :: suffixes => suffix.outline :: outlineSuffixes suffixes

def outlineOperands : List (ArithmeticOperator × Node) → List Outline
  | [] => []
  | (op, operand) :: operands =>
    .tuple "" [op.outline, operand.outline] :: outlineOperands operands

def outlineProperties : List (String × Node) → List Outline
  | [] => []
  | (name, value) :: properties =>
    .tuple "" [.atom (Text.quoted name), value.outline] :: outlineProperties properties

end

end Scriptlet
