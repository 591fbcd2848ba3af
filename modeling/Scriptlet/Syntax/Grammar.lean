import Scriptlet.Syntax.Node
import Scriptlet.Syntax.Parser
/-!
The grammar of expressions, from the loosest binding to the tightest. Each rule is a parser that is
given the parser of nested expressions and the reader of templates; `Grammar.expression` ties the
knot. Nested expressions always begin after some token, so the number of tokens bounds the depth.
-/
namespace Scriptlet.Grammar

open Scriptlet.Parser

def additiveOperator? : Token → Option ArithmeticOperator
  | .plus => some .add
  | .minus => some .subtract
  | _ => none

def multiplicativeOperator? : Token → Option ArithmeticOperator
  | .star => some .multiply
  | .slash => some .divide
  | .percent => some .remainder
  | _ => none

def comparisonOperator? : Token → Option ComparisonOperator
  | .equalEqual => some .equal
  | .bangEqual => some .notEqual
  | .lessEqual => some .lessEqual
  | .less => some .less
  | .greaterEqual => some .greaterEqual
  | .greater => some .greater
  | _ => none

def unaryOperator? : Token → Option UnaryOperator
  | .plus => some .plus
  | .minus => some .minus
  | .bang => some .not
  | _ => none

/-- The operator that one token alone stands for. -/
def only? (token t : Token) : Option Unit :=
  if t = token then some () else none

/-- A token that ends a statement. -/
def isSeparator (t : Token) : Bool :=
  t = .newline || t = .semicolon

/-- Takes a token for which `operator?` is defined, and the line feeds after it. -/
def operator {α : Type} (operator? : Token → Option α) : Parser (Option α) := do
  match (← peek).bind operator? with
  | none => return none
  | some op =>
    discard next
    skipNewlines
    return some op

/-- An operator and its right operand, if there is one. -/
def operand {α : Type} (operator? : Token → Option α) (right : Parser Node) :
    Parser (Option (α × Node)) := do
  match ← operator operator? with
  | none => return none
  | some op => return some (op, ← right)

/-- Operands with operators of one level between them. One operand alone stands for itself; for
several, `make` gives what they are. -/
def chain {α : Type} (operator? : Token → Option α) (make : Node → List (α × Node) → NodeKind)
    (side : Parser Node) : Parser Node := do
  let first ← side
  match ← many (operand operator? side) with
  | [] => return first
  | rest => return ⟨make first rest, first.position⟩

/-- The operands of a chain whose operators are all the same, as one list. -/
def listed (kind : List Node → NodeKind) (first : Node) (rest : List (Unit × Node)) : NodeKind :=
  kind (first :: rest.map (·.2))

/-- The statements up to the end of the tokens or a closing brace, for at most the given number of
rounds. -/
def statementsWithin (expr : Parser Node) : Nat → Parser (List Node)
  | 0 => throw .atEnd
  | n + 1 => do
    modify (·.dropWhile (isSeparator ·.1))
    let token ← peek
    if token = none || token = some .rightBrace then return []
    let statement ← expr
    match ← get with
    | [] => return [statement]
    | (t, p) :: _ =>
      if t = .rightBrace || isSeparator t then
        return statement :: (← statementsWithin expr n)
      else refuse (some .separator) t p

/-- Statements up to the end of the tokens or a closing brace. -/
def statements (expr : Parser Node) (p : Position) : Parser Node := do
  let body ← statementsWithin expr ((← get).length + 1)
  return ⟨.statements body, p⟩

def block (expr : Parser Node) : Parser Node := do
  let p ← expect .leftBrace .openingBrace
  let body ← statements expr p
  discard (expect .rightBrace .closingBrace)
  return body

def whileLoop (expr : Parser Node) : Parser NodeKind := do
  let condition ← expr
  return .whileLoop condition (← block expr)

def branch (expr : Parser Node) : Parser (Node × Node) := do
  let condition ← expr
  return (condition, ← block expr)

/-- Takes an `else`, which may stand on a later line. -/
def elseWord : Parser Bool := do
  match dropNewlines (← get) with
  | (.kwElse, _) :: rest =>
    set rest
    return true
  | _ => return false

/-- What follows the first branch: further branches and the last alternative, for at most the
given number of rounds. -/
def alternatives (expr : Parser Node) : Nat → Parser (List (Node × Node) × Option Node)
  | 0 => return ([], none)
  | n + 1 => do
    if ← elseWord then
      if (← peek) = some .kwIf then
        discard next
        let second ← branch expr
        let (branches, otherwise) ← alternatives expr n
        return (second :: branches, otherwise)
      else return ([], some (← block expr))
    else return ([], none)

def conditional (expr : Parser Node) : Parser NodeKind := do
  let first ← branch expr
  let (branches, otherwise) ← alternatives expr (← get).length
  return .conditional (first :: branches) otherwise

def parameter : Parser Parameter := do
  if (← peek) = some .kwMut then
    discard next
    return ⟨← identifier, true⟩
  else return ⟨← identifier, false⟩

def function (expr : Parser Node) : Parser NodeKind := do
  discard (expect .leftParen .parameters)
  let params ← commaList parameter .rightParen
  return .function params (← block expr)

def property (expr : Parser Node) : Parser (String × Node) := do
  let name ← identifier
  discard (expect .colon .colon)
  skipNewlines
  return (name, ← expr)

/-- An expression between an opening token, already taken, and the closing one. -/
def enclosed (expr : Parser Node) (closing : Token) (expected : Expectation) : Parser Node := do
  skipNewlines
  let inner ← expr
  skipNewlines
  discard (expect closing expected)
  return inner

/-- The tightest rule: literals, names and constructs that begin with a word or a bracket. -/
def primary (expr : Parser Node) (template : String → Position → Except SyntaxError Node) :
    Parser Node := do
  let (token, p) ← next
  match token with
  | .number digits => return ⟨.number digits, p⟩
  | .kwTrue => return ⟨.bool true, p⟩
  | .kwFalse => return ⟨.bool false, p⟩
  | .kwUndefined => return ⟨.undefined, p⟩
  | .identifier name => return ⟨.identifier name, p⟩
  | .plain text => return ⟨.text text, p⟩
  | .template raw => template raw p
  | .leftParen => enclosed expr .rightParen .closingParen
  | .kwWhile => return ⟨← whileLoop expr, p⟩
  | .kwIf => return ⟨← conditional expr, p⟩
  | .kwFn => return ⟨← function expr, p⟩
  | .leftBrace => return ⟨.object (← commaList (property expr) .rightBrace), p⟩
  | .leftBracket => return ⟨.array (← commaList expr .rightBracket), p⟩
  | _ => refuse (some .expression) token p

def suffix (expr : Parser Node) : Parser (Option Suffix) := do
  match ← get with
  | (.leftParen, p) :: rest =>
    set rest
    return some ⟨.arguments (← commaList expr .rightParen), p⟩
  | (.leftBracket, p) :: rest =>
    set rest
    return some ⟨.index (← enclosed expr .rightBracket .closingBracket), p⟩
  | (.dot, p) :: rest =>
    set rest
    return some ⟨.property (← identifier), p⟩
  | _ => return none

section Levels

variable (expr : Parser Node) (template : String → Position → Except SyntaxError Node)

def call : Parser Node := do
  let callee ← primary expr template
  match ← many (suffix expr) with
  | [] => return callee
  | suffixes => return ⟨.call callee suffixes, callee.position⟩

def multiplicative : Parser Node :=
  chain multiplicativeOperator? .arithmetic (call expr template)

def sign : Parser (Option (UnaryOperator × Position)) := do
  match ← get with
  | (t, p) :: rest =>
    match unaryOperator? t with
    | none => return none
    | some op =>
      set rest
      return some (op, p)
  | [] => return none

/-- Signs bind looser than products: they apply to all of what follows them up to a summand. -/
def unary : Parser Node := do
  let signs ← many sign
  let operand ← multiplicative expr template
  return signs.foldr (fun (op, p) node => ⟨.unary op node, p⟩) operand

def additive : Parser Node :=
  chain additiveOperator? .arithmetic (unary expr template)

/-- At most one comparison. -/
def comparison : Parser Node := do
  let left ← additive expr template
  match ← operand comparisonOperator? (additive expr template) with
  | none => return left
  | some (op, right) => return ⟨.comparison left op right, left.position⟩

def conjunction : Parser Node :=
  chain (only? .andAnd) (listed .conjunction) (comparison expr template)

def disjunction : Parser Node :=
  chain (only? .orOr) (listed .disjunction) (conjunction expr template)

end Levels

/-- The object and the property name that an assignment with this node on its left side is about:
the last suffix has to be a property name. -/
def target (node : Node) : Except SyntaxError (Node × String) :=
  match node.kind with
  | .call callee suffixes =>
    match suffixes.getLast? with
    | some ⟨.property name, _⟩ =>
      match suffixes.dropLast with
      | [] => .ok (callee, name)
      | others => .ok (⟨.call callee others, node.position⟩, name)
    | some ⟨_, p⟩ => .error ⟨.invalidTarget, p⟩
    | none => .error ⟨.invalidTarget, node.position⟩
  | _ => .error ⟨.invalidTarget, node.position⟩

def assigned (expr : Parser Node) : Parser Node := do
  skipNewlines
  expr

/-- An expression that does not assign to a name. Before an equals sign it has to be a property,
which is assigned. -/
def unnamed (expr : Parser Node) (template : String → Position → Except SyntaxError Node) :
    Parser Node := do
  let left ← disjunction expr template
  if (← peek) = some .equals then
    let (object, name) ← target left
    discard next
    return ⟨.propertyAssignment object name (← assigned expr), left.position⟩
  else return left

/-- One level of nesting: an assignment, or an expression without one. -/
def level (expr : Parser Node) (template : String → Position → Except SyntaxError Node) :
    Parser Node := do
  match ← get with
  | (.kwMut, p) :: rest =>
    set rest
    let name ← identifier
    discard (expect .equals .initialValue)
    return ⟨.assignment true name (← assigned expr), p⟩
  | (.identifier name, p) :: (.equals, _) :: rest =>
    set rest
    return ⟨.assignment false name (← assigned expr), p⟩
  | _ => unnamed expr template

/-- An expression nested to at most the given depth. -/
def expression (template : String → Position → Except SyntaxError Node) : Nat → Parser Node
  | 0 => throw .atEnd
  | n + 1 => level (expression template n) template

end Scriptlet.Grammar
