import Scriptlet.Token
/-!
Why a source text is refused. An error is a cause and a place; the wording is given by
`Cause.message` alone.
-/
namespace Scriptlet

/-- What a rule of the grammar would have accepted in place of a token. -/
inductive Expectation where
  | expression
  | identifier
  /-- The end of a statement. -/
  | separator
  /-- The rest of a list, or the sign that closes it. -/
  | commaOr (closing : Token)
  | openingBrace
  | closingBrace
  | closingParen
  | closingBracket
  | colon
  /-- The parameter list of a function. -/
  | parameters
  /-- The value of a variable declared as mutable. -/
  | initialValue

inductive SyntaxError.Cause where
  /-- A token where the text should have gone on otherwise, or ended. -/
  | unexpectedToken (expected : Option Expectation) (found : Token)
  | unexpectedEnd
  /-- Text that begins no lexeme. -/
  | unrecognizedInput (text : String)
  | unterminatedInterpolation
  | invalidTarget

structure SyntaxError where
  cause : SyntaxError.Cause
  position : Position

namespace Expectation

def text : Expectation → String
  | expression => "expression"
  | identifier => "identifier"
  | separator => "';' or newline"
  | commaOr closing => "',' or " ++ closing.outline.compact
  | openingBrace => "'\x7b'"
  | closingBrace => "'\x7d'"
  | closingParen => "')'"
  | closingBracket => "']'"
  | colon => "':'"
  | parameters => "'(' after 'fn'"
  | initialValue => "'=' after mutable variable name"

end Expectation

namespace SyntaxError

def Cause.message : Cause → String
  | unexpectedToken none found => "unexpected token: " ++ found.outline.compact
  | unexpectedToken (some expected) found =>
    "unexpected token: expected " ++ expected.text ++ ", found " ++ found.outline.compact
  | unexpectedEnd => "unexpected end of input"
  | unrecognizedInput text => "unrecognized input '" ++ text ++ "'"
  | unterminatedInterpolation => "unterminated interpolation in string"
  | invalidTarget => "invalid assignment target"

/-- A text that ends too early is reported at its end; other errors keep their place. -/
def endingAt (p : Position) (e : SyntaxError) : SyntaxError :=
  match e.cause with
  | .unexpectedEnd => ⟨.unexpectedEnd, p⟩
  | _ => e

/-- The text ended where more was needed; its end is filled in by `endingAt`. -/
def atEnd : SyntaxError := ⟨.unexpectedEnd, .nowhere⟩

end SyntaxError
end Scriptlet
