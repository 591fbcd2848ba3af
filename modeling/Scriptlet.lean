import Scriptlet.CommandLine
import Scriptlet.Eval.Node
import Scriptlet.Main
import Scriptlet.Program
import Scriptlet.Proofs.Eval.Agreement
import Scriptlet.Proofs.Eval.Blame
import Scriptlet.Proofs.Eval.Calculation
import Scriptlet.Proofs.Eval.CallDepth
import Scriptlet.Proofs.Eval.CallFrame
import Scriptlet.Proofs.Eval.Confinement
import Scriptlet.Proofs.Eval.Convention
import Scriptlet.Proofs.Eval.Course
import Scriptlet.Proofs.Eval.Declaration
import Scriptlet.Proofs.Eval.Growth
import Scriptlet.Proofs.Eval.Immutability
import Scriptlet.Proofs.Eval.Indifference
import Scriptlet.Proofs.Eval.Opposite
import Scriptlet.Proofs.Eval.Reach
import Scriptlet.Proofs.Eval.Regrouping
import Scriptlet.Proofs.Eval.Run
import Scriptlet.Proofs.Eval.Scopes
import Scriptlet.Proofs.Eval.Simulation
import Scriptlet.Proofs.Eval.Steps
import Scriptlet.Proofs.Eval.Termination
import Scriptlet.Proofs.Eval.Unmentioned
import Scriptlet.Proofs.Eval.Visit
import Scriptlet.Proofs.Eval.Walk
import Scriptlet.Proofs.Program.History
import Scriptlet.Proofs.Program.Joining
import Scriptlet.Proofs.Program.ReadBack
import Scriptlet.Proofs.Program.Session
import Scriptlet.Proofs.Program.Shape
import Scriptlet.Proofs.Store.Graft
import Scriptlet.Proofs.Store.Region
import Scriptlet.Proofs.Store.Renaming
import Scriptlet.Proofs.Store.Resolution
import Scriptlet.Proofs.Store.Tame
import Scriptlet.Proofs.Store.Unplaced
import Scriptlet.Proofs.Syntax.Boundary
import Scriptlet.Proofs.Syntax.Braces
import Scriptlet.Proofs.Syntax.Complete
import Scriptlet.Proofs.Syntax.Derivation
import Scriptlet.Proofs.Syntax.Embedded
import Scriptlet.Proofs.Syntax.Encoding
import Scriptlet.Proofs.Syntax.Ending
import Scriptlet.Proofs.Syntax.Layout
import Scriptlet.Proofs.Syntax.Literal
import Scriptlet.Proofs.Syntax.Moving
import Scriptlet.Proofs.Syntax.Nesting
import Scriptlet.Proofs.Syntax.Phrase
import Scriptlet.Proofs.Syntax.Places
import Scriptlet.Proofs.Syntax.Pointing
import Scriptlet.Proofs.Syntax.Reading
import Scriptlet.Proofs.Syntax.Refusal
import Scriptlet.Proofs.Syntax.Rounds
import Scriptlet.Proofs.Syntax.Scanning
import Scriptlet.Proofs.Syntax.Sealed
import Scriptlet.Proofs.Syntax.Shape
import Scriptlet.Proofs.Syntax.Sound
import Scriptlet.Proofs.Syntax.Tree
import Scriptlet.Proofs.Token.BlockComment
import Scriptlet.Proofs.Token.Coverage
import Scriptlet.Proofs.Token.Rendering
import Scriptlet.Proofs.Token.Rules
import Scriptlet.Proofs.Value.Arithmetic
import Scriptlet.Proofs.Value.Bisimulation
import Scriptlet.Proofs.Value.Display
import Scriptlet.Proofs.Value.Ordering
import Scriptlet.Proofs.Value.Unfolding
import Scriptlet.Syntax.Program
import Scriptlet.Token.Stream
import Scriptlet.Value.Comparison
import Scriptlet.Value.View
