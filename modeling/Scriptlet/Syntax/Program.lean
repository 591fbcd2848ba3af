import Scriptlet.Syntax.Grammar
import Scriptlet.Syntax.Template
import Scriptlet.Token.Stream
/-!
From source texts to trees: embedded expressions, templates and whole programs. Templates may hold
expressions with templates inside; each is shorter than the one around it, so its length bounds the
nesting.
-/
namespace Scriptlet

def Tokens.checkEnd : Tokens → Except SyntaxError Unit
  | [] => .ok ()
  | (t, p) :: _ => .error ⟨.unexpectedToken none t, p⟩

namespace Template

/-- The tree of an expression that is embedded at `p`. -/
def embedded (template : String → Position → Except SyntaxError Node) (source : List Char)
    (p : Position) : Except SyntaxError Node :=
  Except.mapError (·.endingAt (p.after source)) do
    let tokens ← Token.tokenize source p
    let (node, rest) ←
      Grammar.expression template (tokens.length + 1) (Parser.dropNewlines tokens)
    Tokens.checkEnd (Parser.dropNewlines rest)
    return node

def segmentNode (template : String → Position → Except SyntaxError Node) :
    Segment × Position → Except SyntaxError Node
  | (.text content, p) => .ok ⟨.text (String.ofList content), p⟩
  | (.code source, p) => embedded template source p
  | (.unterminated, p) => .error ⟨.unterminatedInterpolation, p⟩

/-- The node of a template whose opening quote stands at `p`, with templates nested to at most the
given depth. -/
def parseWithin : Nat → String → Position → Except SyntaxError Node
  | 0, _, _ => .error .atEnd
  | n + 1, raw, p => do
    let parts ← (segments raw.toList (p.advance '"')).mapM (segmentNode (parseWithin n))
    return ⟨.template parts, p⟩

/-- The node of a template with the given raw text, whose opening quote stands at `p`. -/
def parse (raw : String) (p : Position) : Except SyntaxError Node :=
  parseWithin (raw.length + 1) raw p

end Template

namespace Program

/-- The tree of a program's tokens: statements that take up all of them. -/
def ofTokens (tokens : Tokens) : Except SyntaxError Node := do
  let expr := Grammar.expression Template.parse (tokens.length + 1)
  let (program, rest) ← Grammar.statements expr .start tokens
  Tokens.checkEnd rest
  return program

def parse (source : String) : Except SyntaxError Node :=
  Except.mapError (·.endingAt (Position.start.after source.toList)) do
    ofTokens (← Token.tokenize source.toList .start)

end Program
end Scriptlet
