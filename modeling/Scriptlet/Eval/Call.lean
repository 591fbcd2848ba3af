import Scriptlet.Eval.Builtin
/-!
Calls. A call gets a frame of its own that binds the function, its parameters and the place of the
call; a function that was taken from values also binds the first of them and sees its properties.
-/
namespace Scriptlet

namespace Frame

/-- The frame of a call, before the function is entered. -/
def ofCall (callee : Value) (params : List Parameter) (arguments : List Value)
    (line column : Int64) : Frame where
  bindings := .ofList <|
    [(selfName, ⟨callee, false⟩)] ++
      params.zipWith (fun param v => (param.name, ⟨v, param.mutable⟩)) arguments ++
      [(lineName, ⟨.integer line, false⟩), (columnName, ⟨.integer column, false⟩)]

end Frame

namespace Store

def receive (s : Store) (frame : FrameRef) (receiver : Value) : Store :=
  let s := s.bind frame Frame.thisName ⟨receiver, false⟩
  match receiver with
  | .object ref => s.associate frame ref
  | _ => s

/-- Makes the values that a function was taken from the receiver, one after the other, so that the
first one stays. -/
def receiveAll (s : Store) (frame : FrameRef) (receivers : List Value) : Store :=
  receivers.foldl (·.receive frame ·) s

end Store

namespace Eval

variable {α : Type}

/-- Runs a computation as one more call under way, however it ends. -/
def nested (m : Eval α) : Eval α := fun s =>
  match m { s with depth := s.depth + 1 } with
  | .value a s => .value a { s with depth := s.depth - 1 }
  | .failure e s => .failure e { s with depth := s.depth - 1 }
  | .timeout => .timeout

section Invocation

variable (settings : Settings) (evaluate : Node → FrameRef → Eval Value)

def runCode (code : Code) (frame : FrameRef) : Eval Value :=
  match code with
  | .closure outer body => do
    modifyStore (·.appendOuter frame outer)
    evaluate body frame
  | .builtin b => b.run settings frame

/-- Invokes a function on a frame, for a call at `p`. -/
def invoke (f : Function) (frame : FrameRef) (p : Position) : Eval Value := do
  if settings.maxDepth ≤ (← get).depth then
    raise (.callDepthExceeded settings.maxDepth) p
  else nested do
    emit (.invoked f.params.length (← get).depth p)
    modifyStore (·.receiveAll frame f.receivers)
    runCode settings evaluate f.code frame

end Invocation

section Suffixes

variable (call : Function → FrameRef → Position → Eval Value)
  (evaluate : Node → FrameRef → Eval Value)

def evaluateAll (frame : FrameRef) : List Node → Eval (List Value)
  | [] => return []
  | node :: nodes => do
    let v ← evaluate node frame
    return v :: (← evaluateAll frame nodes)

/-- Calls a value with arguments, given how a function is invoked. The parentheses stand at `p`, the
expression that is called starts at `site`. Of the arguments, only as many are evaluated as there
are parameters. -/
def apply (callee : Value) (arguments : List Node) (site p : Position) (frame : FrameRef) :
    Eval Value := do
  let f := (← store).function (← callee.toFunction p)
  if arguments.length < f.params.length then
    raise (.missingArguments f.params.length arguments.length) p
  else
    let values ← evaluateAll evaluate frame (arguments.take f.params.length)
    let line ← Arithmetic.ofNat site.line site
    let column ← Arithmetic.ofNat site.column site
    let inner ← add (·.addFrame (.ofCall callee f.params values line column))
    call f inner site

/-- An item of an array; an index that is out of range gives the array itself. -/
def item (v : Value) (index : Node) (p : Position) (frame : FrameRef) : Eval Value := do
  let ref ← v.toArray p
  let n ← (← evaluate index frame).toInteger index.position
  let items := (← store).array ref
  return ((Arithmetic.toNat? n).bind fun k => items[k]?).getD v

def applySuffix (site : Position) (frame : FrameRef) (v : Value) (suffix : Suffix) :
    Eval Value :=
  match suffix.kind with
  | .arguments items => apply call evaluate v items site suffix.position frame
  | .index index => item evaluate v index suffix.position frame
  | .property name => member v name suffix.position

def applySuffixes (site : Position) (frame : FrameRef) : Value → List Suffix → Eval Value
  | v, [] => return v
  | v, suffix :: suffixes => do
    applySuffixes site frame (← applySuffix call evaluate site frame v suffix) suffixes

end Suffixes

end Eval
end Scriptlet
