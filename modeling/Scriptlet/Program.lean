import Scriptlet.Eval.Node
import Scriptlet.Syntax.Program
/-!
Running whole programs: a source text is parsed and its statements are evaluated in a frame.
-/
namespace Scriptlet.Program

inductive Error where
  /-- The text that was read from `path` is refused. -/
  | malformed (path : String) (e : SyntaxError)
  /-- The evaluation stopped. -/
  | stopped (e : Fault)

/-- The wording of an error; a refused text is named by its path. -/
def Error.message : Error → String
  | malformed path e => path ++ ":" ++ e.position.text ++ ": " ++ e.cause.message
  | stopped e => e.message

/-- Runs a source text in a frame, with the given bound on the steps of its evaluation. -/
def run (settings : Settings) (steps : Nat) (path source : String) (frame : FrameRef)
    (s : State) : Outcome Error Value :=
  match parse source with
  | .error e => .failure (.malformed path e) s
  | .ok program =>
    match Eval.evaluate settings steps program frame (s.emit (.parsed path)) with
    | .value v s => .value v (s.emit (.evaluated path v.type))
    | .failure e s => .failure (.stopped e) s
    | .timeout => .timeout

/-- A state with one frame, which binds the names that every program starts with. -/
def start : FrameRef × State :=
  let (frame, store) := ({} : Store).addFrame {}
  (frame, { store := store.installPrelude frame })

/-- A bound on steps that no machine reaches. -/
def unbounded : Nat := 0x4000000000000000

end Scriptlet.Program
