import Scriptlet.Eval.Call
import Scriptlet.Value.Comparison
/-!
The value of a program's tree in a frame. One step of evaluation is written with the invocation of
functions and the evaluation of smaller steps as parameters, and `Eval.evaluate` ties the knot for a
number of steps one inside the other, which also bounds the rounds of a loop.
-/
namespace Scriptlet.Eval

section Step

variable (evaluate : Node → FrameRef → Eval Value) (frame : FrameRef)

/-- The value of the last statement; `last` is the value so far. -/
def statements : Value → List Node → Eval Value
  | last, [] => return last
  | _, node :: nodes => do statements (← evaluate node frame) nodes

/-- Runs a body as long as a condition holds, for at most the given number of rounds. -/
def whileTruthy (condition body : Eval Value) : Nat → Eval Value
  | 0 => timeout
  | n + 1 => do
    if (← condition).truthy then
      discard body
      whileTruthy condition body n
    else return .undefined

/-- The value of the first branch whose condition holds. -/
def branches (otherwise : Eval Value) : List (Node × Node) → Eval Value
  | [] => otherwise
  | (condition, body) :: rest => do
    if (← evaluate condition frame).truthy then evaluate body frame
    else branches otherwise rest

/-- The value of the first operand whose truth is `stop`, or else of the last operand; `last` is the
value so far. -/
def firstTruth (stop : Bool) : Value → List Node → Eval Value
  | last, [] => return last
  | _, node :: nodes => do
    let v ← evaluate node frame
    if v.truthy = stop then return v else firstTruth stop v nodes

/-- The result of operators applied from left to right to a number. -/
def fold : Int64 → List (ArithmeticOperator × Node) → Eval Int64
  | n, [] => return n
  | n, (op, node) :: rest => do
    let m ← (← evaluate node frame).toInteger node.position
    fold (← Arithmetic.apply op n m node.position) rest

def properties : List (String × Node) → Eval (List (String × Value))
  | [] => return []
  | (name, node) :: rest => do
    let v ← evaluate node frame
    return (name, v) :: (← properties rest)

def displays : List Node → Eval String
  | [] => return ""
  | node :: nodes => do
    let v ← evaluate node frame
    let text := (← store).display v
    return text ++ (← displays nodes)

end Step

/-- The value of a node, given how functions are invoked, the evaluation of nodes with fewer steps
and the number of rounds that a loop may make. -/
def step (call : Function → FrameRef → Position → Eval Value)
    (evaluate : Node → FrameRef → Eval Value) (rounds : Nat) (node : Node) (frame : FrameRef) :
    Eval Value := do
  match node.kind with
  | .statements body => statements evaluate frame .undefined body
  | .whileLoop condition body =>
    whileTruthy (evaluate condition frame) (evaluate body frame) rounds
  | .conditional tried otherwise =>
    let last := match otherwise with
      | some body => evaluate body frame
      | none => return .undefined
    branches evaluate frame last tried
  | .function params body =>
    return .function (← add (·.addFunction { params, code := .closure frame body }))
  | .call callee suffixes =>
    applySuffixes call evaluate node.position frame (← evaluate callee frame) suffixes
  | .assignment mutable name value =>
    assignOrDeclare frame mutable name (← evaluate value frame) node.position
  | .propertyAssignment object name value =>
    let ref ← (← evaluate object frame).toObject object.position
    let v ← evaluate value frame
    modifyStore (·.setProperty ref name v)
    return v
  | .disjunction operands => firstTruth evaluate frame true .undefined operands
  | .conjunction operands => firstTruth evaluate frame false .undefined operands
  | .comparison left op right =>
    let a ← evaluate left frame
    let b ← evaluate right frame
    return .bool (← (← store).compare op a b node.position)
  | .unary op operand =>
    let v ← evaluate operand frame
    Arithmetic.applyUnary op v node.position
  | .arithmetic first rest =>
    let n ← (← evaluate first frame).toInteger first.position
    return .integer (← fold evaluate frame n rest)
  | .identifier name => lookup frame name node.position
  | .object entries =>
    let values ← properties evaluate frame entries
    return .object (← add (·.addObject (.ofList values)))
  | .array items =>
    let values ← evaluateAll evaluate frame items
    return .array (← add (·.addArray values.toArray))
  | .number digits =>
    match Arithmetic.literal? digits with
    | some n => return .integer n
    | none => raise (.literalTooLarge digits) node.position
  | .bool b => return .bool b
  | .undefined => return .undefined
  | .template parts => return .string (← displays evaluate frame parts)
  | .text content => return .string content

/-- The value of a node in a frame, evaluated to at most the given number of steps one inside the
other. -/
def evaluate (settings : Settings) : Nat → Node → FrameRef → Eval Value
  | 0, _, _ => timeout
  | n + 1, node, frame =>
    step (invoke settings (evaluate settings n)) (evaluate settings n) n node frame

end Scriptlet.Eval
