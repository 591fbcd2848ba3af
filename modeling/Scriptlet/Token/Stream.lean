import Scriptlet.Syntax.Error
import Scriptlet.Token.Lexeme
/-!
Cutting a whole source text into tokens. Blank space and comments leave no token, and the first
piece of text that begins no lexeme stops the work.
-/
namespace Scriptlet.Token

/-- The tokens of a text that starts at `p`, cutting at most the given number of lexemes. -/
def scan : Nat → List Char → Position → Except SyntaxError Tokens
  | 0, _, _ => .ok []
  | _ + 1, [], _ => .ok []
  | n + 1, c :: cs, p =>
    let found := Lexeme.first c cs
    match found.lexeme with
    | .token t => (scan n found.rest (p.after found.text)).map ((t, p) :: ·)
    | .skipped => scan n found.rest (p.after found.text)
    | .unrecognized => .error ⟨.unrecognizedInput (String.ofList found.text), p⟩

/-- The tokens of a text that starts at `p`. A text has at most as many lexemes as characters. -/
def tokenize (source : List Char) (p : Position) : Except SyntaxError Tokens :=
  scan source.length source p

end Scriptlet.Token
