import Scriptlet.Eval
import Scriptlet.Store.Scope
import Scriptlet.Value.Arithmetic
/-!
Variables and properties, as a running program reads and writes them.
-/
namespace Scriptlet.Eval

/-- The value of a name as a frame sees it; a name without one is reported at `p`. -/
def lookup (frame : FrameRef) (name : String) (p : Position) : Eval Value := do
  match (← store).get? frame name with
  | some v => return v
  | none => raise (.undefinedVariable name) p

/-- Writes a value to a name as a frame sees it; a refusal is reported at `p`. -/
def assign (frame : FrameRef) (name : String) (v : Value) (p : Position) : Eval Unit := do
  match (← store).target frame name with
  | .ok owner => modifyStore (·.write name v owner)
  | .error .undefined => raise (.undefinedVariable name) p
  | .error .immutable => raise (.immutableBinding name) p

/-- Writes a value to a name that is in scope, and makes a variable of the frame of one that is
not. -/
def assignOrDeclare (frame : FrameRef) (mutable : Bool) (name : String) (v : Value)
    (p : Position) : Eval Value := do
  if (← store).has frame name then assign frame name v p
  else
    emit (.declared name mutable p)
    modifyStore (·.bind frame name ⟨v, mutable⟩)
  return v

/-- A property of a value; an unknown one is reported at `p`. -/
def property (v : Value) (name : String) (p : Position) : Eval Value := do
  let unknown := raise (.unknownProperty name v.type) p
  match v with
  | .object ref =>
    match ((← store).object ref).get? name with
    | some property => return property
    | none => unknown
  | .array ref =>
    if name = "size" then
      return .integer (← Arithmetic.ofNat ((← store).array ref).size p)
    else if name = "push" then return .function (← add (·.addFunction Builtin.push.function))
    else unknown
  | .string s =>
    if name = "size" then return .integer (← Arithmetic.ofNat s.length p) else unknown
  | _ => unknown

/-- A property of a value, where a function remembers the value that it is taken from. -/
def member (v : Value) (name : String) (p : Position) : Eval Value := do
  match ← property v name p with
  | .function ref =>
    let f := (← store).function ref
    return .function (← add (·.addFunction { f with receivers := v :: f.receivers }))
  | result => return result

end Scriptlet.Eval
