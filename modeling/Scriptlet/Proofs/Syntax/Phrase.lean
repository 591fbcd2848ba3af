import Mathlib.Data.List.Forall2
import Scriptlet.Syntax.Program
/-!
# Phrases

The grammar of the language, as productions over placed tokens. A phrase is a list of tokens
together with what it stands for; every production says how a phrase is put together from
smaller ones, with no token left over. The productions of one level are given the phrases for
nested expressions and for templates, and `Expression` and `Template` tie the knot.
-/
namespace Scriptlet.Phrase

open Scriptlet.Grammar

def Newlines (ts : Tokens) : Prop :=
  ∀ t ∈ ts, t.1 = .newline

def Separators (ts : Tokens) : Prop :=
  ∀ t ∈ ts, isSeparator t.1

section Lists

variable {α : Type} (item : Tokens → α → Prop)

inductive Many : Tokens → List α → Prop
  | nil : Many [] []
  | cons {ts more a as} : item ts a → Many more as → Many (ts ++ more) (a :: as)

/-- `',' NL* item NL*` -/
inductive FurtherItem : Tokens → α → Prop
  | mk {p nl ts nl' a} : Newlines nl → item ts a → Newlines nl' →
      FurtherItem ((.comma, p) :: (nl ++ (ts ++ nl'))) a

/-- `(',' NL*)?` -/
inductive TrailingComma : Tokens → Prop
  | absent : TrailingComma []
  | present {p nl} : Newlines nl → TrailingComma ((.comma, p) :: nl)

/-- `NL* (item NL* (',' NL* item NL*)* (',' NL*)?)? closing` -/
inductive Items (closing : Token) : Tokens → List α → Prop
  | empty {nl p} : Newlines nl → Items closing (nl ++ [(closing, p)]) []
  | filled {nl ts nl' more trail p a as} : Newlines nl → item ts a → Newlines nl' →
      Many (FurtherItem item) more as → TrailingComma trail →
      Items closing (nl ++ (ts ++ (nl' ++ (more ++ (trail ++ [(closing, p)]))))) (a :: as)

end Lists

section Constructs

variable (expr : Tokens → Node → Prop)

/-- `sep+ expr` -/
inductive FurtherStatement : Tokens → Node → Prop
  | mk {seps ts n} : Separators seps → seps ≠ [] → expr ts n →
      FurtherStatement (seps ++ ts) n

/-- `sep* (expr (sep+ expr)* sep*)?` -/
inductive StatementList : Tokens → List Node → Prop
  | empty {seps} : Separators seps → StatementList seps []
  | filled {seps ts more seps' n ns} : Separators seps → expr ts n →
      Many (FurtherStatement expr) more ns → Separators seps' →
      StatementList (seps ++ (ts ++ (more ++ seps'))) (n :: ns)

inductive Block : Tokens → Node → Prop
  | mk {p ts q body} : StatementList expr ts body →
      Block ((.leftBrace, p) :: (ts ++ [(.rightBrace, q)])) ⟨.statements body, p⟩

/-- `expr block` -/
inductive Branch : Tokens → Node × Node → Prop
  | mk {ts more condition body} : expr ts condition → Block expr more body →
      Branch (ts ++ more) (condition, body)

/-- `NL* 'else' 'if' expr block` -/
inductive ElseIf : Tokens → Node × Node → Prop
  | mk {nl p q ts branch} : Newlines nl → Branch expr ts branch →
      ElseIf (nl ++ ((.kwElse, p) :: (.kwIf, q) :: ts)) branch

/-- `(NL* 'else' block)?` -/
inductive Else : Tokens → Option Node → Prop
  | absent : Else [] none
  | present {nl p ts body} : Newlines nl → Block expr ts body →
      Else (nl ++ ((.kwElse, p) :: ts)) (some body)

/-- What may follow the first branch: `(NL* 'else' 'if' expr block)* (NL* 'else' block)?` -/
inductive Alternatives : Tokens → List (Node × Node) × Option Node → Prop
  | mk {more last branches otherwise} : Many (ElseIf expr) more branches →
      Else expr last otherwise → Alternatives (more ++ last) (branches, otherwise)

/-- `'mut'? IDENT` -/
inductive Param : Tokens → Parameter → Prop
  | fixed {name p} : Param [(.identifier name, p)] ⟨name, false⟩
  | mutable {name p q} : Param [(.kwMut, p), (.identifier name, q)] ⟨name, true⟩

/-- `IDENT ':' NL* expr` -/
inductive Entry : Tokens → String × Node → Prop
  | mk {name p q nl ts n} : Newlines nl → expr ts n →
      Entry ((.identifier name, p) :: (.colon, q) :: (nl ++ ts)) (name, n)

/-- `NL* expr NL* closing` -/
inductive Enclosed (closing : Token) : Tokens → Node → Prop
  | mk {nl ts nl' p n} : Newlines nl → expr ts n → Newlines nl' →
      Enclosed closing (nl ++ (ts ++ (nl' ++ [(closing, p)]))) n

/-- What may follow a primary: `'(' items`, `'[' expr ']'` or `'.' IDENT`. -/
inductive Trailer : Tokens → Suffix → Prop
  | arguments {p ts items} : Items expr .rightParen ts items →
      Trailer ((.leftParen, p) :: ts) ⟨.arguments items, p⟩
  | index {p ts n} : Enclosed expr .rightBracket ts n →
      Trailer ((.leftBracket, p) :: ts) ⟨.index n, p⟩
  | property {p name q} : Trailer [(.dot, p), (.identifier name, q)] ⟨.property name, p⟩

end Constructs

/-- `operator NL* side` -/
inductive Operand {α : Type} (operator? : Token → Option α) (side : Tokens → Node → Prop) :
    Tokens → α × Node → Prop
  | mk {t p op nl ts n} : operator? t = some op → Newlines nl → side ts n →
      Operand operator? side ((t, p) :: (nl ++ ts)) (op, n)

section Levels

variable (expr : Tokens → Node → Prop) (template : String → Position → Node → Prop)

inductive Primary : Tokens → Node → Prop
  | number {digits p} : Primary [(.number digits, p)] ⟨.number digits, p⟩
  | true {p} : Primary [(.kwTrue, p)] ⟨.bool true, p⟩
  | false {p} : Primary [(.kwFalse, p)] ⟨.bool false, p⟩
  | undefined {p} : Primary [(.kwUndefined, p)] ⟨.undefined, p⟩
  | identifier {name p} : Primary [(.identifier name, p)] ⟨.identifier name, p⟩
  | plain {text p} : Primary [(.plain text, p)] ⟨.text text, p⟩
  | template {raw p n} : template raw p n → Primary [(.template raw, p)] n
  | parenthesized {p ts n} : Enclosed expr .rightParen ts n → Primary ((.leftParen, p) :: ts) n
  | whileLoop {p ts condition body} : Branch expr ts (condition, body) →
      Primary ((.kwWhile, p) :: ts) ⟨.whileLoop condition body, p⟩
  | conditional {p ts more first branches otherwise} : Branch expr ts first →
      Alternatives expr more (branches, otherwise) →
      Primary ((.kwIf, p) :: (ts ++ more)) ⟨.conditional (first :: branches) otherwise, p⟩
  | function {p q ts more params body} : Items Param .rightParen ts params →
      Block expr more body →
      Primary ((.kwFn, p) :: (.leftParen, q) :: (ts ++ more)) ⟨.function params body, p⟩
  | object {p ts entries} : Items (Entry expr) .rightBrace ts entries →
      Primary ((.leftBrace, p) :: ts) ⟨.object entries, p⟩
  | array {p ts items} : Items expr .rightBracket ts items →
      Primary ((.leftBracket, p) :: ts) ⟨.array items, p⟩

/-- `primary trailer*` -/
inductive Call : Tokens → Node → Prop
  | bare {ts n} : Primary expr template ts n → Call ts n
  | trailed {ts more callee suffixes} : Primary expr template ts callee →
      Many (Trailer expr) more suffixes → suffixes ≠ [] →
      Call (ts ++ more) ⟨.call callee suffixes, callee.position⟩

end Levels

/-- `side (operator NL* side)*`, where one operand alone stands for itself. -/
inductive Chain {α : Type} (operator? : Token → Option α)
    (make : Node → List (α × Node) → NodeKind) (side : Tokens → Node → Prop) :
    Tokens → Node → Prop
  | single {ts n} : side ts n → Chain operator? make side ts n
  | several {ts more first rest} : side ts first → Many (Operand operator? side) more rest →
      rest ≠ [] → Chain operator? make side (ts ++ more) ⟨make first rest, first.position⟩

/-- `('+' | '-' | '!') unary | side` -/
inductive Unary (side : Tokens → Node → Prop) : Tokens → Node → Prop
  | unsigned {ts n} : side ts n → Unary side ts n
  | signed {t p op ts n} : unaryOperator? t = some op → Unary side ts n →
      Unary side ((t, p) :: ts) ⟨.unary op n, p⟩

/-- `side (operator NL* side)?` -/
inductive Comparison (side : Tokens → Node → Prop) : Tokens → Node → Prop
  | single {ts n} : side ts n → Comparison side ts n
  | compared {ts more left op right} : side ts left →
      Operand comparisonOperator? side more (op, right) →
      Comparison side (ts ++ more) ⟨.comparison left op right, left.position⟩

section Levels

variable (expr : Tokens → Node → Prop) (template : String → Position → Node → Prop)

-- In the levels below `n` is bound before `ts`, so that both stay indices and a level can be
-- nested in the expressions that are built from it.

inductive Multiplicative : Tokens → Node → Prop
  | mk {n ts} : Chain multiplicativeOperator? .arithmetic (Call expr template) ts n →
      Multiplicative ts n

inductive Additive : Tokens → Node → Prop
  | mk {n ts} : Chain additiveOperator? .arithmetic (Unary (Multiplicative expr template)) ts n →
      Additive ts n

inductive Conjunction : Tokens → Node → Prop
  | mk {n ts} :
      Chain (only? .andAnd) (listed .conjunction) (Comparison (Additive expr template)) ts n →
      Conjunction ts n

inductive Disjunction : Tokens → Node → Prop
  | mk {n ts} : Chain (only? .orOr) (listed .disjunction) (Conjunction expr template) ts n →
      Disjunction ts n

end Levels

/-- A chain that ends in a property name can be assigned to: its object is the chain without that
name, or the callee alone. -/
inductive Target : Node → Node → String → Prop
  | bare {callee name p q} : Target ⟨.call callee [⟨.property name, q⟩], p⟩ callee name
  | chain {callee suffixes name p q} : suffixes ≠ [] →
      Target ⟨.call callee (suffixes ++ [⟨.property name, q⟩]), p⟩ ⟨.call callee suffixes, p⟩ name

/-- The node of a segment of a template: a text stands for itself, and code has to be one
expression with nothing but line feeds around it. -/
inductive Segment (expr : Tokens → Node → Prop) : Template.Segment × Position → Node → Prop
  | text {content p} : Segment expr (.text content, p) ⟨.text (String.ofList content), p⟩
  | code {source p nl ts nl' n} : Token.tokenize source p = .ok (nl ++ (ts ++ nl')) →
      Newlines nl → expr ts n → Newlines nl' → Segment expr (.code source, p) n

mutual

inductive Expression : Tokens → Node → Prop
  | assignment {name p q nl ts n} : Newlines nl → Expression ts n →
      Expression ((.identifier name, p) :: (.equals, q) :: (nl ++ ts)) ⟨.assignment false name n, p⟩
  | declaration {name p q r nl ts n} : Newlines nl → Expression ts n →
      Expression ((.kwMut, p) :: (.identifier name, q) :: (.equals, r) :: (nl ++ ts))
        ⟨.assignment true name n, p⟩
  | propertyAssignment {left p nl ts target object name n} :
      Disjunction Expression Template left target → Target target object name →
      Newlines nl → Expression ts n →
      Expression (left ++ ((.equals, p) :: (nl ++ ts)))
        ⟨.propertyAssignment object name n, target.position⟩
  | disjunction {ts n} : Disjunction Expression Template ts n → Expression ts n

/-- A template with the given raw text, whose opening quote stands at `p`. -/
inductive Template : String → Position → Node → Prop
  | mk {raw p parts} :
      List.Forall₂ (Segment Expression) (Template.segments raw.toList (p.advance '"')) parts →
      Template raw p ⟨.template parts, p⟩

end

/-- A whole program: statements that take up all tokens. -/
inductive Program : Tokens → Node → Prop
  | mk {ts body} : StatementList Expression ts body → Program ts ⟨.statements body, .start⟩

end Scriptlet.Phrase
