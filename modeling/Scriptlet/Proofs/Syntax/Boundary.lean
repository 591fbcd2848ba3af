import Scriptlet.Proofs.Syntax.Phrase
/-!
# Boundaries of phrases

The tokens that a phrase can begin with, and the tokens that would continue it. A reader that looks
one token ahead decides by these two sets alone; the one exception is a name before an equals sign,
which is told apart by its second token (`Disjunction.name_before_equals`).
-/
namespace Scriptlet.Phrase

open Scriptlet.Grammar Scriptlet.Parser

def opensPrimary : Token → Bool
  | .number _ | .identifier _ | .plain _ | .template _ | .kwTrue | .kwFalse | .kwUndefined | .kwFn
  | .kwWhile | .kwIf | .leftParen | .leftBracket | .leftBrace => true
  | _ => false

/-- The tokens that an operand begins with: those of a primary, and the signs. -/
def opensOperand (t : Token) : Bool :=
  opensPrimary t || (unaryOperator? t).isSome

def opensExpression (t : Token) : Bool :=
  opensOperand t || t = .kwMut

theorem opensExpression_of_opensOperand (t : Token) (h : opensOperand t) : opensExpression t := by
  simp [opensExpression, h]

theorem opensExpression_of_opensPrimary (t : Token) (h : opensPrimary t) : opensExpression t := by
  simp [opensExpression, opensOperand, h]

def Opens (opening : Token → Bool) (ts : Tokens) : Prop :=
  ∃ t p more, ts = (t, p) :: more ∧ opening t

theorem Opens.append {opening : Token → Bool} {ts : Tokens} (h : Opens opening ts)
    (more : Tokens) : Opens opening (ts ++ more) := by
  obtain ⟨t, p, us, rfl, ht⟩ := h
  exact ⟨t, p, us ++ more, rfl, ht⟩

theorem Opens.mono {opening wider : Token → Bool} {ts : Tokens}
    (hw : ∀ t, opening t → wider t) (h : Opens opening ts) : Opens wider ts := by
  obtain ⟨t, p, us, rfl, ht⟩ := h
  exact ⟨t, p, us, rfl, hw t ht⟩

theorem Opens.ne_nil {opening : Token → Bool} {ts : Tokens} (h : Opens opening ts) : ts ≠ [] := by
  obtain ⟨t, p, us, rfl, -⟩ := h
  exact List.cons_ne_nil _ _

section Levels

variable {expr side : Tokens → Node → Prop} {template : String → Position → Node → Prop}
  {opening : Token → Bool} {ts : Tokens} {n : Node}

theorem Primary.opens (h : Primary expr template ts n) : Opens opensPrimary ts := by
  cases h <;> exact ⟨_, _, _, rfl, rfl⟩

theorem Call.opens (h : Call expr template ts n) : Opens opensPrimary ts := by
  cases h with
  | bare h => exact h.opens
  | trailed h _ _ => exact h.opens.append _

theorem Chain.opens {α : Type} {operator? : Token → Option α}
    {make : Node → List (α × Node) → NodeKind} (hs : ∀ ⦃ts n⦄, side ts n → Opens opening ts)
    (h : Chain operator? make side ts n) : Opens opening ts := by
  cases h with
  | single h => exact hs h
  | several h _ _ => exact (hs h).append _

theorem Comparison.opens (hs : ∀ ⦃ts n⦄, side ts n → Opens opening ts)
    (h : Comparison side ts n) : Opens opening ts := by
  cases h with
  | single h => exact hs h
  | compared h _ => exact (hs h).append _

theorem Multiplicative.opens (h : Multiplicative expr template ts n) : Opens opensPrimary ts := by
  obtain ⟨h⟩ := h
  exact h.opens fun _ _ => Call.opens

theorem Unary.opens (hs : ∀ ⦃ts n⦄, side ts n → Opens opensPrimary ts) (h : Unary side ts n) :
    Opens opensOperand ts := by
  cases h with
  | unsigned h => exact (hs h).mono fun t ht => by simp [opensOperand, ht]
  | signed hop _ => exact ⟨_, _, _, rfl, by simp [opensOperand, hop]⟩

theorem Additive.opens (h : Additive expr template ts n) : Opens opensOperand ts := by
  obtain ⟨h⟩ := h
  exact h.opens fun _ _ => Unary.opens fun _ _ => Multiplicative.opens

theorem Conjunction.opens (h : Conjunction expr template ts n) : Opens opensOperand ts := by
  obtain ⟨h⟩ := h
  exact h.opens fun _ _ => Comparison.opens fun _ _ => Additive.opens

theorem Disjunction.opens (h : Disjunction expr template ts n) : Opens opensOperand ts := by
  obtain ⟨h⟩ := h
  exact h.opens fun _ _ => Conjunction.opens

theorem Expression.opens (h : Expression ts n) : Opens opensExpression ts := by
  cases h with
  | assignment => exact ⟨_, _, _, rfl, rfl⟩
  | declaration => exact ⟨_, _, _, rfl, rfl⟩
  | propertyAssignment h => exact (h.opens.mono opensExpression_of_opensOperand).append _
  | disjunction h => exact h.opens.mono opensExpression_of_opensOperand

theorem Param.opens {param : Parameter} (h : Param ts param) : Opens opensExpression ts := by
  cases h <;> exact ⟨_, _, _, rfl, rfl⟩

theorem Entry.opens {entry : String × Node} (h : Entry expr ts entry) :
    Opens opensExpression ts := by
  cases h
  exact ⟨_, _, _, rfl, rfl⟩

end Levels

/-! ## What would continue a phrase -/

def opensTrailer : Token → Bool
  | .leftParen | .leftBracket | .dot => true
  | _ => false

/-- The tokens that a level goes on with: the operators between its operands, and those that a
tighter level goes on with. -/
def orOperator {α : Type} (tighter : Token → Bool) (operator? : Token → Option α) (t : Token) :
    Bool :=
  tighter t || (operator? t).isSome

def continuesProduct : Token → Bool := orOperator opensTrailer multiplicativeOperator?

def continuesSum : Token → Bool := orOperator continuesProduct additiveOperator?

def continuesComparison : Token → Bool := orOperator continuesSum comparisonOperator?

def continuesConjunction : Token → Bool := orOperator continuesComparison (only? .andAnd)

def continuesDisjunction : Token → Bool := orOperator continuesConjunction (only? .orOr)

def continuesExpression : Token → Bool := orOperator continuesDisjunction (only? .equals)

/-- Tokens that end a phrase: the first of them does not continue it, and no `else` stands after
the line feeds at their front, which would belong to a conditional at the end of the phrase. -/
structure Ends (continuing : Token → Bool) (rest : Tokens) : Prop where
  stops : ∀ t ∈ rest.head?, continuing t.1 = false
  notElse : ∀ t ∈ (dropNewlines rest).head?, t.1 ≠ .kwElse

theorem Ends.mono {continuing fewer : Token → Bool} {rest : Tokens}
    (hf : ∀ t, fewer t → continuing t) (h : Ends continuing rest) : Ends fewer rest := by
  refine ⟨fun t ht => ?_, h.notElse⟩
  have hstop := h.stops t ht
  cases hc : fewer t.1 with
  | false => rfl
  | true => rw [hf t.1 hc] at hstop; cases hstop

theorem Ends.tighter {α : Type} {tighter : Token → Bool} {operator? : Token → Option α}
    {rest : Tokens} (h : Ends (orOperator tighter operator?) rest) : Ends tighter rest :=
  h.mono fun t ht => by simp [orOperator, ht]

theorem Ends.of_cons {continuing : Token → Bool} {t : Token} (hc : continuing t = false)
    (hn : t ≠ .newline) (he : t ≠ .kwElse) (p : Position) (rest : Tokens) :
    Ends continuing ((t, p) :: rest) := by
  constructor
  · intro u hu
    cases hu
    exact hc
  · intro u hu
    rw [dropNewlines, List.dropWhile_cons_of_neg (by simpa using hn)] at hu
    cases hu
    exact he

theorem Ends.nil (continuing : Token → Bool) : Ends continuing [] :=
  ⟨fun _ h => (by cases h), fun _ h => (by cases h)⟩

/-- The operators of a level do not continue its operands. -/
def Separates {α : Type} (operator? : Token → Option α) (tighter : Token → Bool) : Prop :=
  ∀ ⦃t op⦄, operator? t = some op → tighter t = false ∧ t ≠ .newline ∧ t ≠ .kwElse

theorem multiplicative_separates : Separates multiplicativeOperator? opensTrailer := by
  intro t op h
  cases t <;> simp_all [multiplicativeOperator?, opensTrailer]

theorem additive_separates : Separates additiveOperator? continuesProduct := by
  intro t op h
  cases t <;> simp_all [additiveOperator?, continuesProduct, orOperator, opensTrailer,
    multiplicativeOperator?]

theorem comparison_separates : Separates comparisonOperator? continuesSum := by
  intro t op h
  cases t <;> simp_all [comparisonOperator?, continuesSum, continuesProduct, orOperator,
    opensTrailer, multiplicativeOperator?, additiveOperator?]

theorem only_separates {token : Token} {tighter : Token → Bool} (hc : tighter token = false)
    (hn : token ≠ .newline) (he : token ≠ .kwElse) : Separates (only? token) tighter := by
  intro t op h
  simp only [only?] at h
  split at h
  · next ht =>
    subst ht
    exact ⟨hc, hn, he⟩
  · cases h

theorem Operand.head {α : Type} {operator? : Token → Option α} {side : Tokens → Node → Prop}
    {ts : Tokens} {o : α × Node} (h : Operand operator? side ts o) :
    ∃ t p us, ts = (t, p) :: us ∧ operator? t = some o.1 := by
  cases h with
  | mk hop _ _ => exact ⟨_, _, _, rfl, hop⟩

theorem Trailer.head {expr : Tokens → Node → Prop} {ts : Tokens} {suffix : Suffix}
    (h : Trailer expr ts suffix) : ∃ t p us, ts = (t, p) :: us ∧ opensTrailer t := by
  cases h <;> exact ⟨_, _, _, rfl, rfl⟩

def IsSign (ts : Tokens) (s : UnaryOperator × Position) : Prop :=
  ∃ t, unaryOperator? t = some s.1 ∧ ts = [(t, s.2)]

theorem Unary.signs {side : Tokens → Node → Prop} {ts : Tokens} {n : Node}
    (h : Unary side ts n) :
    ∃ us vs signs operand, ts = us ++ vs ∧ Many IsSign us signs ∧ side vs operand ∧
      n = signs.foldr (fun (op, p) node => ⟨.unary op node, p⟩) operand := by
  induction h with
  | @unsigned ts n h => exact ⟨[], ts, [], n, rfl, .nil, h, rfl⟩
  | @signed t p op ts n hop _ ih =>
    obtain ⟨us, vs, signs, operand, rfl, hsigns, hside, rfl⟩ := ih
    exact ⟨_, vs, (op, p) :: signs, operand, rfl, .cons ⟨t, hop, rfl⟩ hsigns, hside, rfl⟩

/-! ## A name before an equals sign -/

/-- A phrase that begins with a name is that name alone, or goes on with another token than an
equals sign. -/
def NameAlone (phrase : Tokens → Node → Prop) : Prop :=
  ∀ ⦃ts n name p us⦄, phrase ts n → ts = (.identifier name, p) :: us →
    (us = [] ∧ n = ⟨.identifier name, p⟩) ∨ ∃ t ∈ us.head?, t.1 ≠ .equals

section Levels

variable {expr side : Tokens → Node → Prop} {template : String → Position → Node → Prop}

/-- Behind a phrase that begins with a name, a token that is no equals sign takes the second place
or leaves it to the phrase. -/
theorem NameAlone.append (h : NameAlone side) {ts us more : Tokens} {n : Node} {name : String}
    {p q : Position} {t : Token} {opening : Token → Bool} (hopens : Opens opening ts)
    (hside : side ts n) (ht : t ≠ .equals)
    (hts : ts ++ ((t, q) :: more) = (.identifier name, p) :: us) :
    ∃ u ∈ us.head?, u.1 ≠ .equals := by
  obtain ⟨u, q', vs, rfl, -⟩ := hopens
  rw [List.cons_append, List.cons.injEq] at hts
  obtain ⟨hu, rfl⟩ := hts
  cases hu
  rcases h hside rfl with ⟨rfl, -⟩ | ⟨v, hv, hne⟩
  · exact ⟨(t, q), rfl, ht⟩
  · exact ⟨v, by rw [List.head?_append, hv]; rfl, hne⟩

theorem Primary.nameAlone : NameAlone (Primary expr template) := by
  intro ts n name p us h hts
  cases h <;> cases hts
  exact .inl ⟨rfl, rfl⟩

theorem Call.nameAlone : NameAlone (Call expr template) := by
  intro ts n name p us h hts
  cases h with
  | bare h => exact Primary.nameAlone h hts
  | trailed h hmore hne =>
    cases hmore with
    | nil => exact absurd rfl hne
    | cons htrailer _ =>
      obtain ⟨t, q, vs, rfl, ht⟩ := htrailer.head
      refine .inr (Primary.nameAlone.append h.opens h ?_ hts)
      rintro rfl
      cases ht

theorem Chain.nameAlone {α : Type} {operator? : Token → Option α}
    {make : Node → List (α × Node) → NodeKind} {opening : Token → Bool} (hs : NameAlone side)
    (hopens : ∀ ⦃ts n⦄, side ts n → Opens opening ts) (hop : operator? .equals = none) :
    NameAlone (Chain operator? make side) := by
  intro ts n name p us h hts
  cases h with
  | single h => exact hs h hts
  | several h hmore hne =>
    cases hmore with
    | nil => exact absurd rfl hne
    | cons hoperand _ =>
      obtain ⟨t, q, vs, rfl, ht⟩ := hoperand.head
      refine .inr (hs.append (hopens h) h ?_ hts)
      rintro rfl
      rw [hop] at ht
      cases ht

theorem Unary.nameAlone (hs : NameAlone side) : NameAlone (Unary side) := by
  intro ts n name p us h hts
  cases h with
  | unsigned h => exact hs h hts
  | signed hop _ =>
    cases hts
    cases hop

theorem Comparison.nameAlone {opening : Token → Bool} (hs : NameAlone side)
    (hopens : ∀ ⦃ts n⦄, side ts n → Opens opening ts) : NameAlone (Comparison side) := by
  intro ts n name p us h hts
  cases h with
  | single h => exact hs h hts
  | compared h hoperand =>
    obtain ⟨t, q, vs, rfl, ht⟩ := hoperand.head
    refine .inr (hs.append (hopens h) h ?_ hts)
    rintro rfl
    cases ht

theorem Disjunction.nameAlone : NameAlone (Disjunction expr template) := by
  have hmul : NameAlone (Multiplicative expr template) := by
    intro ts n name p us h hts
    obtain ⟨h⟩ := h
    exact Chain.nameAlone Call.nameAlone (fun _ _ => Call.opens) rfl h hts
  have hadd : NameAlone (Additive expr template) := by
    intro ts n name p us h hts
    obtain ⟨h⟩ := h
    exact Chain.nameAlone (Unary.nameAlone hmul)
      (fun _ _ => Unary.opens fun _ _ => Multiplicative.opens) rfl h hts
  have hconj : NameAlone (Conjunction expr template) := by
    intro ts n name p us h hts
    obtain ⟨h⟩ := h
    exact Chain.nameAlone (Comparison.nameAlone hadd fun _ _ => Additive.opens)
      (fun _ _ => Comparison.opens fun _ _ => Additive.opens) rfl h hts
  intro ts n name p us h hts
  obtain ⟨h⟩ := h
  exact Chain.nameAlone hconj (fun _ _ => Conjunction.opens) rfl h hts

/-- Where a phrase and what follows it begin with a name and an equals sign, the phrase is that
name. -/
theorem Disjunction.name_before_equals {ts rest more : Tokens} {n : Node} {name : String}
    {p q : Position} (h : Disjunction expr template ts n)
    (hts : ts ++ rest = (.identifier name, p) :: (.equals, q) :: more) :
    ts = [(.identifier name, p)] ∧ n = ⟨.identifier name, p⟩ := by
  obtain ⟨t, r, us, rfl, -⟩ := h.opens
  rw [List.cons_append, List.cons.injEq] at hts
  obtain ⟨hhead, htail⟩ := hts
  cases hhead
  rcases Disjunction.nameAlone h rfl with ⟨rfl, hn⟩ | ⟨u, hu, hne⟩
  · exact ⟨rfl, hn⟩
  · have hhead : (us ++ rest).head? = some u := by rw [List.head?_append, hu]; rfl
    rw [htail] at hhead
    cases hhead
    exact absurd rfl hne

end Levels

end Scriptlet.Phrase
