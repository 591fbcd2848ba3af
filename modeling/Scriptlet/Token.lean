import Scriptlet.Outline
import Scriptlet.Position
import Scriptlet.Text.Quoted
/-!
The words and signs of a source text. Each token has a spelling; four of them carry a text of
their own.
-/
namespace Scriptlet

inductive Token where
  /-- A run of decimal digits. -/
  | number (digits : String)
  | identifier (name : String)
  /-- A text in single quotes, without the quotes. -/
  | plain (text : String)
  /-- A text in double quotes, without the quotes and with its escapes as written. -/
  | template (raw : String)
  | kwTrue
  | kwFalse
  | kwUndefined
  | kwFn
  | kwMut
  | kwWhile
  | kwIf
  | kwElse
  | equalEqual
  | bangEqual
  | lessEqual
  | greaterEqual
  | less
  | greater
  | andAnd
  | orOr
  | plus
  | minus
  | star
  | slash
  | percent
  | bang
  | equals
  | dot
  | comma
  | colon
  | semicolon
  | leftParen
  | rightParen
  | leftBracket
  | rightBracket
  | leftBrace
  | rightBrace
  | newline
deriving DecidableEq

/-- Tokens with the places where they start, in the order of the text. -/
abbrev Tokens := List (Token × Position)

namespace Token

def keywords : List (String × Token) := [
  ("true", kwTrue), ("false", kwFalse), ("undefined", kwUndefined), ("fn", kwFn),
  ("mut", kwMut), ("while", kwWhile), ("if", kwIf), ("else", kwElse)]

/-- The signs, each before the signs that it starts with. -/
def signs : List (List Char × Token) := [
  (['=', '='], equalEqual), (['!', '='], bangEqual), (['<', '='], lessEqual),
  (['>', '='], greaterEqual), (['&', '&'], andAnd), (['|', '|'], orOr), (['<'], less),
  (['>'], greater), (['+'], plus), (['-'], minus), (['*'], star), (['/'], slash),
  (['%'], percent), (['!'], bang), (['='], equals), (['.'], dot), ([','], comma),
  ([':'], colon), ([';'], semicolon), (['('], leftParen), ([')'], rightParen),
  (['['], leftBracket), ([']'], rightBracket), (['\x7b'], leftBrace), (['\x7d'], rightBrace),
  (['\n'], newline)]

/-- A word is a reserved word if it is spelled like one, and a name otherwise. -/
def ofWord (word : String) : Token :=
  (keywords.lookup word).getD (identifier word)

def text? : Token → Option String
  | number digits => some digits
  | identifier name => some name
  | plain text => some text
  | template raw => some raw
  | _ => none

/-- The name of a token's kind, as messages and listings give it. -/
def label : Token → String
  | number _ => "Number"
  | identifier _ => "Identifier"
  | plain _ => "Str"
  | template _ => "InterpolatedStr"
  | kwTrue => "True"
  | kwFalse => "False"
  | kwUndefined => "Undefined"
  | kwFn => "Fn"
  | kwMut => "Mut"
  | kwWhile => "While"
  | kwIf => "If"
  | kwElse => "Else"
  | equalEqual => "EqualEqual"
  | bangEqual => "BangEqual"
  | lessEqual => "LessEqual"
  | greaterEqual => "GreaterEqual"
  | less => "Less"
  | greater => "Greater"
  | andAnd => "AndAnd"
  | orOr => "OrOr"
  | plus => "Plus"
  | minus => "Minus"
  | star => "Star"
  | slash => "Slash"
  | percent => "Percent"
  | bang => "Bang"
  | equals => "Equals"
  | dot => "Dot"
  | comma => "Comma"
  | colon => "Colon"
  | semicolon => "Semicolon"
  | leftParen => "LParen"
  | rightParen => "RParen"
  | leftBracket => "LBracket"
  | rightBracket => "RBracket"
  | leftBrace => "LBrace"
  | rightBrace => "RBrace"
  | newline => "NewLine"

/-- A token's kind, with the text that it carries in quotes. -/
def outline (t : Token) : Outline :=
  .tuple t.label (t.text?.toList.map fun text => .atom (Text.quoted text))

end Token
end Scriptlet
