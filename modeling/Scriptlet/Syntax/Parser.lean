import Scriptlet.Syntax.Error
/-!
Reading a list of tokens from the front. A parser takes some tokens off and gives a result, or
fails with an error. Loops are bounded by the number of tokens that are left, since every round
takes at least one.
-/
namespace Scriptlet

/-- A reader of tokens: what is left of them is its state. -/
abbrev Parser := StateT Tokens (Except SyntaxError)

namespace Parser

def refuse {α : Type} (expected : Option Expectation) (found : Token) (p : Position) : Parser α :=
  throw ⟨.unexpectedToken expected found, p⟩

def peek : Parser (Option Token) := do
  return (← get).head?.map (·.1)

def next : Parser (Token × Position) := do
  match ← get with
  | [] => throw .atEnd
  | token :: rest =>
    set rest
    return token

/-- Tokens without the line feeds at their front. -/
def dropNewlines (tokens : Tokens) : Tokens :=
  tokens.dropWhile (·.1 = .newline)

def skipNewlines : Parser Unit :=
  modify dropNewlines

/-- Takes the given token, and gives its place. -/
def expect (token : Token) (expected : Expectation) : Parser Position := do
  let (found, p) ← next
  if found = token then return p else refuse expected found p

def identifier : Parser String := do
  match ← next with
  | (.identifier name, _) => return name
  | (found, p) => refuse (some .identifier) found p

/-- The results of `step` until it gives none, for at most the given number of rounds. -/
def repeated {α : Type} (step : Parser (Option α)) : Nat → Parser (List α)
  | 0 => return []
  | n + 1 => do
    match ← step with
    | none => return []
    | some item => return item :: (← repeated step n)

/-- The results of `step` until it gives none; a step that gives one takes a token. -/
def many {α : Type} (step : Parser (Option α)) : Parser (List α) := do
  repeated step (← get).length

/-- The items up to the closing token, for at most the given number of rounds. -/
def itemsUntil {α : Type} (item : Parser α) (closing : Token) : Nat → Parser (List α)
  | 0 => throw .atEnd
  | n + 1 => do
    skipNewlines
    if (← peek) = some closing then
      discard next
      return []
    let first ← item
    skipNewlines
    let (found, p) ← next
    if found = .comma then return first :: (← itemsUntil item closing n)
    else if found = closing then return [first]
    else refuse (some (.commaOr closing)) found p

/-- Items with commas between them, up to and with the closing token. Line feeds may stand around
the items, and a comma after the last one. -/
def commaList {α : Type} (item : Parser α) (closing : Token) : Parser (List α) := do
  itemsUntil item closing ((← get).length + 1)

end Parser
end Scriptlet
