import Scriptlet.Eval.Variable
import Scriptlet.Value.View
/-!
The functions that the language provides. They find their arguments, their receiver and the place
of the call in the frame that they are invoked with.
-/
namespace Scriptlet

namespace Eval

/-- A line or column of the call, as a frame sees it. -/
def coordinate (frame : FrameRef) (name : String) : Eval Nat := do
  let n ← (← lookup frame name .nowhere).toInteger .nowhere
  match Arithmetic.toNat? n with
  | some k => return k
  | none => fail (.internal (.negativeCoordinate name))

def callSite (frame : FrameRef) : Eval Position := do
  let line ← coordinate frame Frame.lineName
  return ⟨line, ← coordinate frame Frame.columnName⟩

/-- Writes a text and a line feed. -/
def writeLine (sink : Sink) (text : String) : Eval Unit :=
  match sink with
  | .ready => modify fun s => { s with output := s.output ++ text ++ "\n" }
  | .closed reason => fail (.output reason)
  | .busy => fail (.internal .busyOutput)

end Eval

namespace Builtin

open Eval

def run (settings : Settings) (frame : FrameRef) (b : Builtin) : Eval Value := do
  let p ← callSite frame
  match b with
  | puts =>
    let v ← lookup frame b.parameterName p
    writeLine settings.sink ((← store).display v)
    return .undefined
  | assert =>
    if (← lookup frame b.parameterName p).truthy then return .undefined
    else raise .assertionFailed p
  | push =>
    let receiver ← lookup frame Frame.thisName p
    let v ← lookup frame b.parameterName p
    let ref ← receiver.toArray p
    if settings.held = some ref then fail (.internal .busyArray)
    modifyStore (·.pushItem ref v)
    return receiver

end Builtin

namespace Store

/-- Binds a provided function, under a name that cannot be assigned. -/
def provide (s : Store) (frame : FrameRef) (name : String) (b : Builtin) : Store :=
  let (ref, s) := s.addFunction b.function
  s.bind frame name ⟨.function ref, false⟩

def installPrelude (s : Store) (frame : FrameRef) : Store :=
  (s.provide frame "puts" .puts).provide frame "assert" .assert

end Store
end Scriptlet
