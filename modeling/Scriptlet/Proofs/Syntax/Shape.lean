import Scriptlet.Proofs.Syntax.Derivation
import Scriptlet.Proofs.Syntax.Tree
import Scriptlet.Proofs.Token.Rendering
/-!
# The shape of parsed trees

The data type of trees has room for trees that no text stands for: a row of operands without any, a
call without suffixes, a number that is no number. Main statement: no such tree comes out of the
parser, also not inside of templates, where code is cut into tokens and read again, and where an
assignment takes a chain apart (`Program.wellShaped_of_parse`).
-/
namespace Scriptlet

open Phrase

/-- A letter or an underscore, and letters, digits and underscores after it; no reserved word. -/
def IsName (name : String) : Prop :=
  name.toList.head?.any Lexeme.startsName ∧ name.toList.all Lexeme.continuesName ∧
    name ∉ Token.keywords.map (·.1)

instance : DecidablePred IsName :=
  fun _ => inferInstanceAs (Decidable (_ ∧ _))

def IsNumeral (digits : String) : Prop :=
  digits.toList ≠ [] ∧ digits.toList.all Lexeme.isDecimal

instance : DecidablePred IsNumeral :=
  fun _ => inferInstanceAs (Decidable (_ ∧ _))

def Node.IsBlock (node : Node) : Bool :=
  match node.kind with
  | .statements _ => true
  | _ => false

def ArithmeticOperator.isAdditive : ArithmeticOperator → Bool
  | .add | .subtract => true
  | .multiply | .divide | .remainder => false

def SuffixKind.Named : SuffixKind → Prop
  | .property name => IsName name
  | .arguments _ | .index _ => True

instance : DecidablePred SuffixKind.Named
  | .property name => inferInstanceAs (Decidable (IsName name))
  | .arguments _ | .index _ => inferInstanceAs (Decidable True)

/-- What a construct has to look like by itself: nothing is missing, bodies are statements,
operators that stand in a row are of one level, names are names and numbers are numbers. -/
def NodeKind.Shaped : NodeKind → Prop
  | .disjunction operands | .conjunction operands => 2 ≤ operands.length
  | .arithmetic _ rest =>
    rest ≠ [] ∧ ((∀ o ∈ rest, o.1.isAdditive = true) ∨ ∀ o ∈ rest, o.1.isAdditive = false)
  | .conditional branches otherwise =>
    branches ≠ [] ∧ (∀ branch ∈ branches, branch.2.IsBlock) ∧ ∀ body ∈ otherwise, body.IsBlock
  | .whileLoop _ body => body.IsBlock
  | .function params body => (∀ param ∈ params, IsName param.name) ∧ body.IsBlock
  | .call _ suffixes => suffixes ≠ [] ∧ ∀ suffix ∈ suffixes, suffix.kind.Named
  | .number digits => IsNumeral digits
  | .identifier name | .assignment _ name _ | .propertyAssignment _ name _ => IsName name
  | .object properties => ∀ property ∈ properties, IsName property.1
  | .statements _ | .comparison _ _ _ | .unary _ _ | .array _ | .bool _ | .undefined | .template _
  | .text _ => True

instance : DecidablePred NodeKind.Shaped
  | .disjunction operands | .conjunction operands =>
    inferInstanceAs (Decidable (2 ≤ operands.length))
  | .arithmetic _ rest => inferInstanceAs (Decidable (rest ≠ [] ∧ (_ ∨ _)))
  | .conditional branches _ => inferInstanceAs (Decidable (branches ≠ [] ∧ _ ∧ _))
  | .whileLoop _ body => inferInstanceAs (Decidable (body.IsBlock = true))
  | .function _ body => inferInstanceAs (Decidable (_ ∧ body.IsBlock = true))
  | .call _ suffixes => inferInstanceAs (Decidable (suffixes ≠ [] ∧ _))
  | .number digits => inferInstanceAs (Decidable (IsNumeral digits))
  | .identifier name | .assignment _ name _ | .propertyAssignment _ name _ =>
    inferInstanceAs (Decidable (IsName name))
  | .object properties => inferInstanceAs (Decidable (∀ property ∈ properties, IsName property.1))
  | .statements _ | .comparison _ _ _ | .unary _ _ | .array _ | .bool _ | .undefined | .template _
  | .text _ => inferInstanceAs (Decidable True)

def Node.WellShaped (tree : Node) : Prop :=
  ∀ node : Node, node.Within tree → node.kind.Shaped

theorem Node.wellShaped_mk {kind : NodeKind} {p : Position} :
    (⟨kind, p⟩ : Node).WellShaped ↔ kind.Shaped ∧ ∀ child ∈ kind.children, child.WellShaped :=
  Node.forall_within

/-! ## Phrases of well formed tokens -/

def Tokens.WellFormed (ts : Tokens) : Prop :=
  ∀ t ∈ ts, t.1.WellFormed

theorem Tokens.wellFormed_cons {t : Token × Position} {ts : Tokens} :
    Tokens.WellFormed (t :: ts) ↔ t.1.WellFormed ∧ Tokens.WellFormed ts :=
  List.forall_mem_cons

theorem Tokens.wellFormed_append {ts more : Tokens} :
    Tokens.WellFormed (ts ++ more) ↔ Tokens.WellFormed ts ∧ Tokens.WellFormed more :=
  List.forall_mem_append

theorem isName_of_wellFormed {name : String} (h : (Token.identifier name).WellFormed) :
    IsName name := by
  obtain ⟨_, ⟨c, hc, rfl⟩, text, htext, heq⟩ := Language.mem_mul.1 h.1
  have hname : name.toList = c :: text := heq.symm
  refine ⟨?_, ?_, h.2⟩
  · rw [hname]
    exact hc
  · rw [hname, List.all_cons, Bool.and_eq_true, List.all_eq_true]
    exact ⟨by simp [Lexeme.continuesName, hc], Pattern.mem_kstar_one.1 htext⟩

theorem isNumeral_iff_wellFormed {digits : String} :
    IsNumeral digits ↔ (Token.number digits).WellFormed := by
  change _ ↔ digits.toList ∈ Pattern.number
  rw [IsNumeral]
  cases digits.toList with
  | nil => exact iff_of_false (fun h => h.1 rfl) Pattern.nil_notMem_one_mul
  | cons c cs =>
    rw [Pattern.number, Pattern.plus, Pattern.cons_mem_one_mul, Pattern.mem_kstar_one,
      List.all_cons, Bool.and_eq_true, List.all_eq_true]
    exact and_iff_right (List.cons_ne_nil c cs)

/-- From well formed tokens, phrases of a level make results that are good. -/
def Shapes {α : Type} (good : α → Prop) (phrase : Tokens → α → Prop) : Prop :=
  ∀ ⦃ts a⦄, phrase ts a → Tokens.WellFormed ts → good a

namespace Phrase

section Lists

variable {α : Type} {good : α → Prop} {item : Tokens → α → Prop}

theorem many_shapes (h : Shapes good item) : Shapes (fun as => ∀ a ∈ as, good a) (Many item) := by
  intro ts as hmany hts
  induction hmany with
  | nil => simp
  | cons ha _ ih =>
    rw [Tokens.wellFormed_append] at hts
    exact List.forall_mem_cons.2 ⟨h ha hts.1, ih hts.2⟩

theorem items_shapes (h : Shapes good item) (closing : Token) :
    Shapes (fun as => ∀ a ∈ as, good a) (Items item closing) := by
  have hfurther : Shapes good (FurtherItem item) := by
    rintro _ _ ⟨_, ha, _⟩ hts
    simp only [Tokens.wellFormed_cons, Tokens.wellFormed_append] at hts
    exact h ha hts.2.2.1
  intro ts as hitems hts
  cases hitems with
  | empty => simp
  | filled _ ha _ has _ =>
    simp only [Tokens.wellFormed_append] at hts
    exact List.forall_mem_cons.2 ⟨h ha hts.2.1, many_shapes hfurther has hts.2.2.2.1⟩

end Lists

section Constructs

variable {expr : Tokens → Node → Prop} (h : Shapes Node.WellShaped expr)

include h

theorem statementList_shapes : Shapes (fun body => ∀ n ∈ body, n.WellShaped)
    (StatementList expr) := by
  have hfurther : Shapes Node.WellShaped (FurtherStatement expr) := by
    rintro _ _ ⟨_, _, hn⟩ hts
    rw [Tokens.wellFormed_append] at hts
    exact h hn hts.2
  intro ts body hlist hts
  cases hlist with
  | empty => simp
  | filled _ hn hns _ =>
    simp only [Tokens.wellFormed_append] at hts
    exact List.forall_mem_cons.2 ⟨h hn hts.2.1, many_shapes hfurther hns hts.2.2.1⟩

theorem block_shapes : Shapes (fun n => n.WellShaped ∧ n.IsBlock) (Block expr) := by
  rintro _ _ ⟨hlist⟩ hts
  simp only [Tokens.wellFormed_cons, Tokens.wellFormed_append] at hts
  exact ⟨Node.wellShaped_mk.2 ⟨trivial, statementList_shapes h hlist hts.2.1⟩, rfl⟩

theorem branch_shapes :
    Shapes (fun branch => branch.1.WellShaped ∧ branch.2.WellShaped ∧ branch.2.IsBlock)
      (Branch expr) := by
  rintro _ _ ⟨hcondition, hbody⟩ hts
  rw [Tokens.wellFormed_append] at hts
  exact ⟨h hcondition hts.1, block_shapes h hbody hts.2⟩

theorem alternatives_shapes :
    Shapes (fun rest => (∀ branch ∈ rest.1, branch.1.WellShaped ∧ branch.2.WellShaped ∧
      branch.2.IsBlock) ∧ ∀ body ∈ rest.2, body.WellShaped ∧ body.IsBlock)
      (Alternatives expr) := by
  have helseIf : Shapes (fun branch => branch.1.WellShaped ∧ branch.2.WellShaped ∧
      branch.2.IsBlock) (ElseIf expr) := by
    rintro _ _ ⟨_, hbranch⟩ hts
    simp only [Tokens.wellFormed_cons, Tokens.wellFormed_append] at hts
    exact branch_shapes h hbranch hts.2.2.2
  rintro _ _ ⟨hmore, hlast⟩ hts
  rw [Tokens.wellFormed_append] at hts
  refine ⟨many_shapes helseIf hmore hts.1, ?_⟩
  cases hlast with
  | absent => simp
  | present _ hbody =>
    simp only [Tokens.wellFormed_cons, Tokens.wellFormed_append] at hts
    rintro body ⟨⟩
    exact block_shapes h hbody hts.2.2.2

omit h in
theorem param_shapes : Shapes (fun param => IsName param.name) Param := by
  intro ts param hparam hts
  cases hparam with
  | fixed => exact isName_of_wellFormed (Tokens.wellFormed_cons.1 hts).1
  | mutable =>
    simp only [Tokens.wellFormed_cons] at hts
    exact isName_of_wellFormed hts.2.1

theorem entry_shapes : Shapes (fun entry => IsName entry.1 ∧ entry.2.WellShaped) (Entry expr) := by
  rintro _ _ ⟨_, hn⟩ hts
  simp only [Tokens.wellFormed_cons, Tokens.wellFormed_append] at hts
  exact ⟨isName_of_wellFormed hts.1, h hn hts.2.2.2⟩

theorem enclosed_shapes (closing : Token) : Shapes Node.WellShaped (Enclosed expr closing) := by
  rintro _ _ ⟨_, hn, _⟩ hts
  simp only [Tokens.wellFormed_append] at hts
  exact h hn hts.2.1

theorem trailer_shapes :
    Shapes (fun suffix => suffix.kind.Named ∧ ∀ child ∈ suffix.kind.children, child.WellShaped)
      (Trailer expr) := by
  intro ts suffix htrailer hts
  cases htrailer with
  | arguments hitems =>
    exact ⟨trivial, items_shapes h .rightParen hitems (Tokens.wellFormed_cons.1 hts).2⟩
  | index hindex =>
    have hplace := enclosed_shapes h .rightBracket hindex (Tokens.wellFormed_cons.1 hts).2
    exact ⟨trivial, List.forall_mem_singleton.2 hplace⟩
  | property =>
    simp only [Tokens.wellFormed_cons] at hts
    exact ⟨isName_of_wellFormed hts.2.1, by simp [SuffixKind.children]⟩

end Constructs

section Levels

variable {side : Tokens → Node → Prop} (h : Shapes Node.WellShaped side)

include h

theorem operand_shapes {α : Type} (operator? : Token → Option α) :
    Shapes (fun o => o.2.WellShaped ∧ ∃ t, operator? t = some o.1) (Operand operator? side) := by
  rintro _ _ ⟨hop, _, hn⟩ hts
  simp only [Tokens.wellFormed_cons, Tokens.wellFormed_append] at hts
  exact ⟨h hn hts.2.2, _, hop⟩

/-- A chain of several operands has to make a construct of them that is as it should be. -/
theorem chain_shapes {α : Type} {operator? : Token → Option α}
    {make : Node → List (α × Node) → NodeKind}
    (hmake : ∀ first rest, rest ≠ [] → (∀ o ∈ rest, ∃ t, operator? t = some o.1) →
      (make first rest).Shaped ∧ (make first rest).children = first :: rest.map (·.2)) :
    Shapes Node.WellShaped (Chain operator? make side) := by
  intro ts n hchain hts
  cases hchain with
  | single hn => exact h hn hts
  | several hfirst hrest hne =>
    rw [Tokens.wellFormed_append] at hts
    have hrest := many_shapes (operand_shapes h operator?) hrest hts.2
    obtain ⟨hshaped, hchildren⟩ := hmake _ _ hne fun o ho => (hrest o ho).2
    refine Node.wellShaped_mk.2 ⟨hshaped, ?_⟩
    rw [hchildren]
    exact List.forall_mem_cons.2 ⟨h hfirst hts.1, List.forall_mem_map.2 fun o ho => (hrest o ho).1⟩

theorem unary_shapes : Shapes Node.WellShaped (Unary side) := by
  intro ts n hunary hts
  induction hunary with
  | unsigned hn => exact h hn hts
  | signed _ _ ih =>
    have hoperand := ih (Tokens.wellFormed_cons.1 hts).2
    exact Node.wellShaped_mk.2 ⟨trivial, List.forall_mem_singleton.2 hoperand⟩

theorem comparison_shapes : Shapes Node.WellShaped (Comparison side) := by
  intro ts n hcomparison hts
  cases hcomparison with
  | single hn => exact h hn hts
  | compared hleft hright =>
    rw [Tokens.wellFormed_append] at hts
    have hright := (operand_shapes h _ hright hts.2).1
    refine Node.wellShaped_mk.2 ⟨trivial, ?_⟩
    simp only [NodeKind.children, List.forall_mem_cons]
    exact ⟨h hleft hts.1, hright, by simp⟩

end Levels

/-! ## Expressions and templates -/

theorem listed_shaped {kind : List Node → NodeKind}
    (hkind : ∀ operands, (kind operands).Shaped ↔ 2 ≤ operands.length)
    (hchildren : ∀ operands, (kind operands).children = operands) (first : Node)
    (rest : List (Unit × Node)) (hne : rest ≠ []) :
    (Grammar.listed kind first rest).Shaped ∧
      (Grammar.listed kind first rest).children = first :: rest.map (·.2) := by
  have hlength := List.length_pos_iff.2 hne
  refine ⟨(hkind _).2 ?_, hchildren _⟩
  rw [List.length_cons, List.length_map]
  omega

theorem isAdditive_of_additive {t : Token} {op : ArithmeticOperator}
    (h : Grammar.additiveOperator? t = some op) : op.isAdditive = true := by
  cases t <;> cases h <;> rfl

theorem isAdditive_of_multiplicative {t : Token} {op : ArithmeticOperator}
    (h : Grammar.multiplicativeOperator? t = some op) : op.isAdditive = false := by
  cases t <;> cases h <;> rfl

section Expressions

variable {expr : Tokens → Node → Prop} {leaf : String → Position → Node → Prop}
  (h : Shapes Node.WellShaped expr) (hleaf : ∀ ⦃raw p n⦄, leaf raw p n → n.WellShaped)

include h hleaf

theorem primary_shapes : Shapes Node.WellShaped (Primary expr leaf) := by
  intro ts n hprimary hts
  cases hprimary with
  | parenthesized hinner =>
    exact enclosed_shapes h .rightParen hinner (Tokens.wellFormed_cons.1 hts).2
  | template hn => exact hleaf hn
  | number =>
    have hdigits := isNumeral_iff_wellFormed.2 (Tokens.wellFormed_cons.1 hts).1
    exact Node.wellShaped_mk.2 ⟨hdigits, by simp [NodeKind.children]⟩
  | identifier =>
    have hname := isName_of_wellFormed (Tokens.wellFormed_cons.1 hts).1
    exact Node.wellShaped_mk.2 ⟨hname, by simp [NodeKind.children]⟩
  | plain | true | false | undefined =>
    exact Node.wellShaped_mk.2 ⟨trivial, by simp [NodeKind.children]⟩
  | whileLoop hbranch =>
    obtain ⟨hcondition, hbody, hblock⟩ := branch_shapes h hbranch (Tokens.wellFormed_cons.1 hts).2
    refine Node.wellShaped_mk.2 ⟨hblock, ?_⟩
    simp only [NodeKind.children, List.forall_mem_cons]
    exact ⟨hcondition, hbody, by simp⟩
  | @conditional p ts more first branches otherwise hfirst hrest =>
    simp only [Tokens.wellFormed_cons, Tokens.wellFormed_append] at hts
    obtain ⟨hmore, hotherwise⟩ := alternatives_shapes h hrest hts.2.2
    have hbranches : ∀ branch ∈ first :: branches, branch.1.WellShaped ∧ branch.2.WellShaped ∧
        branch.2.IsBlock :=
      List.forall_mem_cons.2 ⟨branch_shapes h hfirst hts.2.1, hmore⟩
    refine Node.wellShaped_mk.2 ⟨⟨List.cons_ne_nil _ _, fun branch hb => (hbranches branch hb).2.2,
      fun body hbody => (hotherwise body hbody).2⟩, ?_⟩
    rw [NodeKind.children, List.forall_mem_append]
    refine ⟨?_, fun body hbody => (hotherwise body (Option.mem_toList.1 hbody)).1⟩
    intro child hchild
    obtain ⟨branch, hbranch, hchild⟩ := List.mem_flatMap.1 hchild
    obtain ⟨hcondition, hbody, -⟩ := hbranches branch hbranch
    rcases List.mem_pair.1 hchild with rfl | rfl
    · exact hcondition
    · exact hbody
  | function hparams hbody =>
    simp only [Tokens.wellFormed_cons, Tokens.wellFormed_append] at hts
    have hparams := items_shapes param_shapes .rightParen hparams hts.2.2.1
    obtain ⟨hbody, hblock⟩ := block_shapes h hbody hts.2.2.2
    exact Node.wellShaped_mk.2 ⟨⟨hparams, hblock⟩, List.forall_mem_singleton.2 hbody⟩
  | object hentries =>
    have hentries := items_shapes (entry_shapes h) .rightBrace hentries
      (Tokens.wellFormed_cons.1 hts).2
    exact Node.wellShaped_mk.2 ⟨fun entry he => (hentries entry he).1,
      List.forall_mem_map.2 fun entry he => (hentries entry he).2⟩
  | array hitems =>
    exact Node.wellShaped_mk.2 ⟨trivial,
      items_shapes h .rightBracket hitems (Tokens.wellFormed_cons.1 hts).2⟩

theorem call_shapes : Shapes Node.WellShaped (Call expr leaf) := by
  intro ts n hcall hts
  cases hcall with
  | bare hn => exact primary_shapes h hleaf hn hts
  | trailed hcallee hsuffixes hne =>
    rw [Tokens.wellFormed_append] at hts
    have hsuffixes := many_shapes (trailer_shapes h) hsuffixes hts.2
    refine Node.wellShaped_mk.2 ⟨⟨hne, fun suffix hs => (hsuffixes suffix hs).1⟩, ?_⟩
    refine List.forall_mem_cons.2 ⟨primary_shapes h hleaf hcallee hts.1, fun child hchild => ?_⟩
    obtain ⟨suffix, hsuffix, hchild⟩ := List.mem_flatMap.1 hchild
    exact (hsuffixes suffix hsuffix).2 child hchild

theorem disjunction_shapes : Shapes Node.WellShaped (Disjunction expr leaf) := by
  have hproduct : Shapes Node.WellShaped (Multiplicative expr leaf) := by
    rintro _ _ ⟨hn⟩
    refine chain_shapes (call_shapes h hleaf) (fun first rest hne hops => ⟨?_, rfl⟩) hn
    exact ⟨hne, .inr fun o ho => isAdditive_of_multiplicative (hops o ho).choose_spec⟩
  have hsum : Shapes Node.WellShaped (Additive expr leaf) := by
    rintro _ _ ⟨hn⟩
    refine chain_shapes (unary_shapes hproduct) (fun first rest hne hops => ⟨?_, rfl⟩) hn
    exact ⟨hne, .inl fun o ho => isAdditive_of_additive (hops o ho).choose_spec⟩
  have hconjunction : Shapes Node.WellShaped (Conjunction expr leaf) := by
    rintro _ _ ⟨hn⟩
    exact chain_shapes (comparison_shapes hsum)
      (fun first rest hne _ => listed_shaped (fun _ => .rfl) (fun _ => rfl) first rest hne) hn
  rintro _ _ ⟨hn⟩
  exact chain_shapes hconjunction
    (fun first rest hne _ => listed_shaped (fun _ => .rfl) (fun _ => rfl) first rest hne) hn

end Expressions

theorem Target.wellShaped {target object : Node} {name : String} (h : Target target object name)
    (htarget : target.WellShaped) : object.WellShaped ∧ IsName name := by
  cases h with
  | bare =>
    obtain ⟨⟨-, hnamed⟩, hchildren⟩ := Node.wellShaped_mk.1 htarget
    exact ⟨hchildren _ List.mem_cons_self, hnamed _ List.mem_cons_self⟩
  | @chain callee suffixes name p q hne =>
    obtain ⟨⟨-, hnamed⟩, hchildren⟩ := Node.wellShaped_mk.1 htarget
    refine ⟨Node.wellShaped_mk.2 ⟨⟨hne, fun suffix hs => ?_⟩, fun child hchild => ?_⟩, ?_⟩
    · exact hnamed suffix (List.mem_append_left _ hs)
    · apply hchildren child
      simp only [NodeKind.children, List.flatMap_append, List.mem_cons, List.mem_append] at hchild ⊢
      tauto
    · exact hnamed ⟨.property name, q⟩ (by simp)

theorem segment_wellShaped {expr : Tokens → Node → Prop} (h : Shapes Node.WellShaped expr)
    {s : Template.Segment × Position} {n : Node} (hn : Segment expr s n) : n.WellShaped := by
  cases hn with
  | text => exact Node.wellShaped_mk.2 ⟨trivial, by simp [NodeKind.children]⟩
  | code htokens _ hn _ =>
    have htokens : Tokens.WellFormed _ := (Token.tokenize_eq_ok.1 htokens).wellFormed
    simp only [Tokens.wellFormed_append] at htokens
    exact h hn htokens.2.1

theorem closed_wellShaped :
    Closed (fun ts n => Opens opensExpression ts ∧ (Tokens.WellFormed ts → n.WellShaped))
      fun _ _ n => n.WellShaped where
  opens _ _ h := h.1
  assignment _ _ _ _ _ _ _ h := by
    refine ⟨⟨_, _, _, rfl, rfl⟩, fun hts => ?_⟩
    simp only [Tokens.wellFormed_cons, Tokens.wellFormed_append] at hts
    exact Node.wellShaped_mk.2 ⟨isName_of_wellFormed hts.1,
      List.forall_mem_singleton.2 (h.2 hts.2.2.2)⟩
  declaration _ _ _ _ _ _ _ _ h := by
    refine ⟨⟨_, _, _, rfl, rfl⟩, fun hts => ?_⟩
    simp only [Tokens.wellFormed_cons, Tokens.wellFormed_append] at hts
    exact Node.wellShaped_mk.2 ⟨isName_of_wellFormed hts.2.1,
      List.forall_mem_singleton.2 (h.2 hts.2.2.2.2)⟩
  propertyAssignment _ _ _ _ _ _ _ _ hleft htarget _ h := by
    refine ⟨(hleft.opens.mono opensExpression_of_opensOperand).append _, fun hts => ?_⟩
    simp only [Tokens.wellFormed_cons, Tokens.wellFormed_append] at hts
    have hshaped := disjunction_shapes (fun _ _ h => h.2) (fun _ _ _ h => h) hleft hts.1
    obtain ⟨hobject, hname⟩ := htarget.wellShaped hshaped
    refine Node.wellShaped_mk.2 ⟨hname, ?_⟩
    simp only [NodeKind.children, List.forall_mem_cons]
    exact ⟨hobject, h.2 hts.2.2.2, by simp⟩
  disjunction _ _ h := ⟨h.opens.mono opensExpression_of_opensOperand,
    disjunction_shapes (fun _ _ h => h.2) (fun _ _ _ h => h) h⟩
  template _ _ parts hparts := by
    refine Node.wellShaped_mk.2 ⟨trivial, fun part hpart => ?_⟩
    obtain ⟨i, hi, rfl⟩ := List.getElem_of_mem hpart
    exact segment_wellShaped (fun _ _ h => h.2) (hparts.get (by rw [hparts.length_eq]; exact hi) hi)

end Phrase

namespace Program

theorem wellShaped_of_parse {source : String} {program : Node} (h : parse source = .ok program) :
    program.WellShaped := by
  rw [parse, mapError_eq_ok, except_bind_eq_ok] at h
  obtain ⟨tokens, htokens, h⟩ := h
  obtain ⟨body, hbody, rfl⟩ := statementList_of_ofTokens closed_wellShaped h
  have hwell : Tokens.WellFormed tokens := (Token.tokenize_eq_ok.1 htokens).wellFormed
  exact Node.wellShaped_mk.2 ⟨trivial, statementList_shapes (fun _ _ h => h.2) hbody hwell⟩

end Program
end Scriptlet
