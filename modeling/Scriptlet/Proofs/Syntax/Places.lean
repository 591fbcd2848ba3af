import Scriptlet.Proofs.Syntax.Derivation
import Scriptlet.Proofs.Syntax.Tree
/-!
# Every place of a tree points at its construct

The places of a tree come from tokens, and tokens stand where they are said to. Main statement: in
the tree of a source text, the place of every node and of every suffix, also inside of templates,
is the line and the column of a part of the text that begins as the construct is written
(`Program.parse_marks`).
-/
namespace Scriptlet

open Phrase

/-- The place is that of a part of the source that begins with the given text: its line counts the
line feeds before, its column the bytes since the last of them, both from one on. -/
def Position.Marks (p : Position) (source text : List Char) : Prop :=
  ∃ before after, source = before ++ (text ++ after) ∧ p.line = 1 + before.count '\n' ∧
    p.column = 1 + ((before.reverse.takeWhile (· ≠ '\n')).map Char.utf8Size).sum

def SuffixKind.sign : SuffixKind → String
  | .arguments _ => "("
  | .index _ => "["
  | .property _ => "."

/-- What stands at the place of a construct. A construct that begins with another one has the place
of that one. -/
def NodeKind.Begins (source : List Char) (p : Position) : NodeKind → Prop
  | .identifier name => p.Marks source name.toList
  | .number digits => p.Marks source digits.toList
  | .bool true => p.Marks source "true".toList
  | .bool false => p.Marks source "false".toList
  | .undefined => p.Marks source "undefined".toList
  | .function _ _ => p.Marks source "fn".toList
  | .whileLoop _ _ => p.Marks source "while".toList
  | .conditional _ _ => p.Marks source "if".toList
  | .array _ => p.Marks source "[".toList
  | .object _ => p.Marks source "\x7b".toList
  | .template _ => p.Marks source "\"".toList
  | .unary op _ => p.Marks source op.sign.toList
  | .assignment true _ _ => p.Marks source "mut".toList
  | .assignment false name _ => p.Marks source name.toList
  | .statements _ => p = .start ∨ p.Marks source "\x7b".toList
  | .text _ => True
  | .call callee _ => p = callee.position
  | .comparison left _ _ => p = left.position
  | .arithmetic first _ => p = first.position
  | .propertyAssignment holder _ _ => p = holder.position
  | .disjunction operands => operands.head?.map (·.position) = some p
  | .conjunction operands => operands.head?.map (·.position) = some p

/-- A node whose place, and the places of whose suffixes, point at what they are places of. -/
structure Node.Marked (source : List Char) (node : Node) : Prop where
  place : node.position.Marks source []
  construct : node.kind.Begins source node.position
  suffixes : ∀ suffix ∈ node.kind.suffixes,
    suffix.position.Marks source suffix.kind.sign.toList

def Node.Placed (source : List Char) (tree : Node) : Prop :=
  ∀ node : Node, node.Within tree → node.Marked source

theorem Position.marks_iff_stands {p : Position} {source text : List Char} :
    p.Marks source text ↔ Stands source .start p text := by
  constructor
  · rintro ⟨before, after, hsource, hline, hcolumn⟩
    refine ⟨before, after, hsource, ?_⟩
    rw [start_after, ← hline, ← hcolumn]
  · rintro ⟨before, after, hsource, rfl⟩
    rw [start_after]
    exact ⟨before, after, hsource, rfl, rfl⟩

theorem Position.Marks.left {p : Position} {source text more : List Char}
    (h : p.Marks source (text ++ more)) : p.Marks source text :=
  marks_iff_stands.2 (marks_iff_stands.1 h).left

theorem Position.Marks.of_spelling {p : Position} {source : List Char} {t : Token}
    (h : p.Marks source t.spelling) (text : String) (ht : t.spelling = text.toList) :
    p.Marks source text.toList :=
  ht ▸ h

theorem Position.Marks.place {p : Position} {source text : List Char} (h : p.Marks source text) :
    p.Marks source [] :=
  left (h : p.Marks source ([] ++ text))

namespace Node

variable {source : List Char} {kind : NodeKind} {p : Position}

theorem placed_mk :
    (⟨kind, p⟩ : Node).Placed source ↔
      (⟨kind, p⟩ : Node).Marked source ∧ ∀ child ∈ kind.children, child.Placed source :=
  Node.forall_within

theorem Placed.marked {node : Node} (h : node.Placed source) : node.Marked source :=
  h node .self

theorem Placed.of_text {text : List Char} (hplace : p.Marks source text)
    (hbegins : kind.Begins source p) (hsuffixes : kind.suffixes = [])
    (hchildren : ∀ child ∈ kind.children, child.Placed source) :
    (⟨kind, p⟩ : Node).Placed source :=
  placed_mk.2 ⟨⟨hplace.place, hbegins, by simp [hsuffixes]⟩, hchildren⟩

end Node

/-! ## Phrases of marked tokens -/

def Tokens.Marked (source : List Char) (ts : Tokens) : Prop :=
  ∀ t ∈ ts, t.2.Marks source t.1.spelling

theorem Tokens.marked_cons {source : List Char} {t : Token} {p : Position} {ts : Tokens} :
    Tokens.Marked source ((t, p) :: ts) ↔ p.Marks source t.spelling ∧ Tokens.Marked source ts :=
  List.forall_mem_cons

theorem Tokens.marked_append {source : List Char} {ts more : Tokens} :
    Tokens.Marked source (ts ++ more) ↔ Tokens.Marked source ts ∧ Tokens.Marked source more :=
  List.forall_mem_append

/-- From marked tokens, phrases of a level make results that are good. -/
def Marking {α : Type} (source : List Char) (good : α → Prop) (phrase : Tokens → α → Prop) :
    Prop :=
  ∀ ⦃ts a⦄, phrase ts a → Tokens.Marked source ts → good a

namespace Phrase

variable {source : List Char}

section Lists

variable {α : Type} {good : α → Prop} {item : Tokens → α → Prop}

theorem many_marking (h : Marking source good item) :
    Marking source (fun as => ∀ a ∈ as, good a) (Many item) := by
  intro ts as hmany hts
  induction hmany with
  | nil => simp
  | cons ha _ ih =>
    rw [Tokens.marked_append] at hts
    exact List.forall_mem_cons.2 ⟨h ha hts.1, ih hts.2⟩

theorem items_marking (h : Marking source good item) (closing : Token) :
    Marking source (fun as => ∀ a ∈ as, good a) (Items item closing) := by
  have hfurther : Marking source good (FurtherItem item) := by
    rintro _ _ ⟨_, ha, _⟩ hts
    simp only [Tokens.marked_cons, Tokens.marked_append] at hts
    exact h ha hts.2.2.1
  intro ts as hitems hts
  cases hitems with
  | empty => simp
  | filled _ ha _ has _ =>
    simp only [Tokens.marked_append] at hts
    exact List.forall_mem_cons.2 ⟨h ha hts.2.1, many_marking hfurther has hts.2.2.2.1⟩

end Lists

section Constructs

variable {expr : Tokens → Node → Prop} (h : Marking source (Node.Placed source) expr)

include h

theorem statementList_marking :
    Marking source (fun body => ∀ n ∈ body, n.Placed source) (StatementList expr) := by
  have hfurther : Marking source (Node.Placed source) (FurtherStatement expr) := by
    rintro _ _ ⟨_, _, hn⟩ hts
    rw [Tokens.marked_append] at hts
    exact h hn hts.2
  intro ts body hlist hts
  cases hlist with
  | empty => simp
  | filled _ hn hns _ =>
    simp only [Tokens.marked_append] at hts
    exact List.forall_mem_cons.2 ⟨h hn hts.2.1, many_marking hfurther hns hts.2.2.1⟩

theorem block_marking : Marking source (Node.Placed source) (Block expr) := by
  rintro _ _ ⟨hlist⟩ hts
  simp only [Tokens.marked_cons, Tokens.marked_append] at hts
  have hbrace := hts.1.of_spelling "\x7b" (by decide)
  exact .of_text hbrace (Or.inr hbrace) rfl (statementList_marking h hlist hts.2.1)

theorem branch_marking :
    Marking source (fun branch => branch.1.Placed source ∧ branch.2.Placed source)
      (Branch expr) := by
  rintro _ _ ⟨hcondition, hbody⟩ hts
  rw [Tokens.marked_append] at hts
  exact ⟨h hcondition hts.1, block_marking h hbody hts.2⟩

theorem alternatives_marking :
    Marking source (fun rest => (∀ branch ∈ rest.1, branch.1.Placed source ∧
      branch.2.Placed source) ∧ ∀ body ∈ rest.2, body.Placed source) (Alternatives expr) := by
  have helseIf : Marking source (fun branch => branch.1.Placed source ∧ branch.2.Placed source)
      (ElseIf expr) := by
    rintro _ _ ⟨_, hbranch⟩ hts
    simp only [Tokens.marked_cons, Tokens.marked_append] at hts
    exact branch_marking h hbranch hts.2.2.2
  rintro _ _ ⟨hmore, hlast⟩ hts
  rw [Tokens.marked_append] at hts
  refine ⟨many_marking helseIf hmore hts.1, ?_⟩
  cases hlast with
  | absent => simp
  | present _ hbody =>
    simp only [Tokens.marked_cons, Tokens.marked_append] at hts
    rintro body ⟨⟩
    exact block_marking h hbody hts.2.2.2

theorem enclosed_marking (closing : Token) :
    Marking source (Node.Placed source) (Enclosed expr closing) := by
  rintro _ _ ⟨_, hn, _⟩ hts
  simp only [Tokens.marked_append] at hts
  exact h hn hts.2.1

theorem entry_marking : Marking source (fun entry => entry.2.Placed source) (Entry expr) := by
  rintro _ _ ⟨_, hn⟩ hts
  simp only [Tokens.marked_cons, Tokens.marked_append] at hts
  exact h hn hts.2.2.2

theorem trailer_marking :
    Marking source (fun suffix => suffix.position.Marks source suffix.kind.sign.toList ∧
      ∀ child ∈ suffix.kind.children, child.Placed source) (Trailer expr) := by
  intro ts suffix htrailer hts
  cases htrailer with
  | arguments hitems =>
    rw [Tokens.marked_cons] at hts
    exact ⟨hts.1.of_spelling "(" (by decide), items_marking h .rightParen hitems hts.2⟩
  | index hindex =>
    rw [Tokens.marked_cons] at hts
    refine ⟨hts.1.of_spelling "[" (by decide), List.forall_mem_singleton.2 ?_⟩
    exact enclosed_marking h .rightBracket hindex hts.2
  | property =>
    rw [Tokens.marked_cons] at hts
    exact ⟨hts.1.of_spelling "." (by decide), by simp [SuffixKind.children]⟩

end Constructs

section Levels

variable {side : Tokens → Node → Prop} (h : Marking source (Node.Placed source) side)

include h

theorem operand_marking {α : Type} (operator? : Token → Option α) :
    Marking source (fun operand => operand.2.Placed source) (Operand operator? side) := by
  rintro _ _ ⟨_, _, hn⟩ hts
  simp only [Tokens.marked_cons, Tokens.marked_append] at hts
  exact h hn hts.2.2

theorem chain_marking {α : Type} {operator? : Token → Option α}
    {make : Node → List (α × Node) → NodeKind}
    (hmake : ∀ first rest, (make first rest).Begins source first.position ∧
      (make first rest).suffixes = [] ∧ (make first rest).children = first :: rest.map (·.2)) :
    Marking source (Node.Placed source) (Chain operator? make side) := by
  intro ts n hchain hts
  cases hchain with
  | single hn => exact h hn hts
  | several hfirst hrest =>
    rw [Tokens.marked_append] at hts
    obtain ⟨hbegins, hsuffixes, hchildren⟩ := hmake _ _
    have hfirst := h hfirst hts.1
    refine .of_text hfirst.marked.place hbegins hsuffixes ?_
    rw [hchildren]
    refine List.forall_mem_cons.2 ⟨hfirst, List.forall_mem_map.2 ?_⟩
    exact many_marking (operand_marking h operator?) hrest hts.2

theorem unary_marking : Marking source (Node.Placed source) (Unary side) := by
  intro ts n hunary hts
  induction hunary with
  | unsigned hn => exact h hn hts
  | @signed t p op ts n hop _ ih =>
    rw [Tokens.marked_cons] at hts
    have hsign : t.spelling = op.sign.toList := by
      cases t <;> cases hop <;> decide
    have hplace : p.Marks source op.sign.toList := hts.1.of_spelling _ hsign
    exact .of_text hplace hplace rfl (List.forall_mem_singleton.2 (ih hts.2))

theorem comparison_marking : Marking source (Node.Placed source) (Comparison side) := by
  intro ts n hcomparison hts
  cases hcomparison with
  | single hn => exact h hn hts
  | compared hleft hright =>
    rw [Tokens.marked_append] at hts
    have hleft := h hleft hts.1
    have hright := operand_marking h _ hright hts.2
    refine .of_text hleft.marked.place rfl rfl ?_
    simp only [NodeKind.children, List.forall_mem_cons]
    exact ⟨hleft, hright, by simp⟩

end Levels

section Expressions

variable {expr : Tokens → Node → Prop} {leaf : String → Position → Node → Prop}
  (h : Marking source (Node.Placed source) expr)
  (hleaf : ∀ ⦃raw p n⦄, leaf raw p n → p.Marks source (Token.template raw).spelling →
    n.Placed source)

include h hleaf

theorem primary_marking : Marking source (Node.Placed source) (Primary expr leaf) := by
  intro ts n hprimary hts
  cases hprimary with
  | parenthesized hinner =>
    rw [Tokens.marked_cons] at hts
    exact enclosed_marking h .rightParen hinner hts.2
  | template hn =>
    rw [Tokens.marked_cons] at hts
    exact hleaf hn hts.1
  | number =>
    rw [Tokens.marked_cons] at hts
    exact .of_text hts.1 hts.1 rfl (by simp [NodeKind.children])
  | identifier =>
    rw [Tokens.marked_cons] at hts
    exact .of_text hts.1 hts.1 rfl (by simp [NodeKind.children])
  | plain =>
    rw [Tokens.marked_cons] at hts
    exact .of_text hts.1 trivial rfl (by simp [NodeKind.children])
  | true =>
    rw [Tokens.marked_cons] at hts
    have hplace := hts.1.of_spelling "true" (by decide)
    exact .of_text hplace hplace rfl (by simp [NodeKind.children])
  | false =>
    rw [Tokens.marked_cons] at hts
    have hplace := hts.1.of_spelling "false" (by decide)
    exact .of_text hplace hplace rfl (by simp [NodeKind.children])
  | undefined =>
    rw [Tokens.marked_cons] at hts
    have hplace := hts.1.of_spelling "undefined" (by decide)
    exact .of_text hplace hplace rfl (by simp [NodeKind.children])
  | whileLoop hbranch =>
    rw [Tokens.marked_cons] at hts
    have hplace := hts.1.of_spelling "while" (by decide)
    obtain ⟨hcondition, hbody⟩ := branch_marking h hbranch hts.2
    refine .of_text hplace hplace rfl ?_
    simp only [NodeKind.children, List.forall_mem_cons]
    exact ⟨hcondition, hbody, by simp⟩
  | conditional hfirst hrest =>
    simp only [Tokens.marked_cons, Tokens.marked_append] at hts
    have hplace := hts.1.of_spelling "if" (by decide)
    have hfirst := branch_marking h hfirst hts.2.1
    obtain ⟨hbranches, hotherwise⟩ := alternatives_marking h hrest hts.2.2
    refine .of_text hplace hplace rfl ?_
    rw [NodeKind.children, List.forall_mem_append]
    refine ⟨?_, fun body hbody => hotherwise body (Option.mem_toList.1 hbody)⟩
    intro child hchild
    obtain ⟨branch, hbranch, hchild⟩ := List.mem_flatMap.1 hchild
    have hboth : branch.1.Placed source ∧ branch.2.Placed source := by
      rcases List.mem_cons.1 hbranch with rfl | hbranch
      · exact hfirst
      · exact hbranches branch hbranch
    rcases List.mem_pair.1 hchild with rfl | rfl
    · exact hboth.1
    · exact hboth.2
  | function _ hbody =>
    simp only [Tokens.marked_cons, Tokens.marked_append] at hts
    have hplace := hts.1.of_spelling "fn" (by decide)
    refine .of_text hplace hplace rfl (List.forall_mem_singleton.2 ?_)
    exact block_marking h hbody hts.2.2.2
  | object hentries =>
    rw [Tokens.marked_cons] at hts
    have hplace := hts.1.of_spelling "\x7b" (by decide)
    refine .of_text hplace hplace rfl (List.forall_mem_map.2 ?_)
    exact items_marking (entry_marking h) .rightBrace hentries hts.2
  | array hitems =>
    rw [Tokens.marked_cons] at hts
    have hplace := hts.1.of_spelling "[" (by decide)
    exact .of_text hplace hplace rfl (items_marking h .rightBracket hitems hts.2)

theorem call_marking : Marking source (Node.Placed source) (Call expr leaf) := by
  intro ts n hcall hts
  cases hcall with
  | bare hn => exact primary_marking h hleaf hn hts
  | trailed hcallee hsuffixes =>
    rw [Tokens.marked_append] at hts
    have hcallee := primary_marking h hleaf hcallee hts.1
    have hsuffixes := many_marking (trailer_marking h) hsuffixes hts.2
    refine Node.placed_mk.2 ⟨⟨hcallee.marked.place, rfl, ?_⟩, ?_⟩
    · exact fun suffix hsuffix => (hsuffixes suffix hsuffix).1
    · refine List.forall_mem_cons.2 ⟨hcallee, fun child hchild => ?_⟩
      obtain ⟨suffix, hsuffix, hchild⟩ := List.mem_flatMap.1 hchild
      exact (hsuffixes suffix hsuffix).2 child hchild

theorem disjunction_marking : Marking source (Node.Placed source) (Disjunction expr leaf) := by
  have hproduct : Marking source (Node.Placed source) (Multiplicative expr leaf) := by
    rintro _ _ ⟨hn⟩ hts
    refine chain_marking (call_marking h hleaf) (fun _ _ => ?_) hn hts
    exact ⟨rfl, rfl, rfl⟩
  have hsum : Marking source (Node.Placed source) (Additive expr leaf) := by
    rintro _ _ ⟨hn⟩ hts
    refine chain_marking (unary_marking hproduct) (fun _ _ => ?_) hn hts
    exact ⟨rfl, rfl, rfl⟩
  have hconjunction : Marking source (Node.Placed source) (Conjunction expr leaf) := by
    rintro _ _ ⟨hn⟩ hts
    refine chain_marking (comparison_marking hsum) (fun _ _ => ?_) hn hts
    exact ⟨rfl, rfl, rfl⟩
  rintro _ _ ⟨hn⟩ hts
  refine chain_marking hconjunction (fun _ _ => ?_) hn hts
  exact ⟨rfl, rfl, rfl⟩

end Expressions

/-- What is assigned to has the place of the object in front of it. -/
theorem Target.placed {target object : Node} {name : String} (h : Target target object name)
    (htarget : target.Placed source) :
    object.Placed source ∧ target.position = object.position := by
  cases h with
  | bare =>
    obtain ⟨hmarked, hchildren⟩ := Node.placed_mk.1 htarget
    exact ⟨hchildren _ List.mem_cons_self, hmarked.construct⟩
  | @chain callee suffixes name p q =>
    obtain ⟨hmarked, hchildren⟩ := Node.placed_mk.1 htarget
    refine ⟨Node.placed_mk.2 ⟨⟨hmarked.place, hmarked.construct, ?_⟩, ?_⟩, rfl⟩
    · exact fun suffix hsuffix => hmarked.suffixes suffix (List.mem_append_left _ hsuffix)
    · intro child hchild
      apply hchildren child
      simp only [NodeKind.children, List.flatMap_append, List.mem_cons, List.mem_append] at hchild ⊢
      tauto

/-- Code in a template stands in the template, and so do its tokens. -/
theorem segment_placed {expr : Tokens → Node → Prop}
    (h : Marking source (Node.Placed source) expr) {raw : List Char} {p : Position}
    (hraw : p.Marks source raw) {s : Template.Segment × Position} {n : Node}
    (hs : s ∈ Template.segments raw p) (hn : Segment expr s n) : n.Placed source := by
  have hstands := (Position.marks_iff_stands.1 hraw).trans (Template.segments_stand raw p s hs)
  cases hn with
  | text =>
    exact .of_text (Position.marks_iff_stands.2 hstands) trivial rfl (by simp [NodeKind.children])
  | code htokens _ hn _ =>
    apply h hn
    intro t ht
    have htoken := (Token.tokenize_eq_ok.1 htokens).stands t (by simp [ht])
    exact Position.marks_iff_stands.2 (hstands.trans htoken)

theorem template_placed {expr : Tokens → Node → Prop}
    (h : Marking source (Node.Placed source) expr) {raw : String} {p : Position}
    {parts : List Node} (hp : p.Marks source (Token.template raw).spelling)
    (hparts : List.Forall₂ (Segment expr) (Template.segments raw.toList (p.advance '"')) parts) :
    (⟨.template parts, p⟩ : Node).Placed source := by
  have hquote : p.Marks source ['"'] := hp.left.left
  have hraw : (p.advance '"').Marks source raw.toList := by
    refine Position.marks_iff_stands.2 ((Position.marks_iff_stands.1 hp).trans (.cons ?_))
    exact .front _ _ _
  refine .of_text hquote hquote rfl ?_
  have hpieces : ∀ s ∈ Template.segments raw.toList (p.advance '"'), ∀ n, Segment expr s n →
      n.Placed source := fun s hs n hn => segment_placed h hraw hs hn
  rw [NodeKind.children]
  generalize Template.segments raw.toList (p.advance '"') = pieces at hparts hpieces
  induction hparts with
  | nil => simp
  | cons hn _ ih =>
    rw [List.forall_mem_cons] at hpieces ⊢
    exact ⟨hpieces.1 _ hn, ih hpieces.2⟩

theorem closed_placed (source : List Char) :
    Closed
      (fun ts n => Opens opensExpression ts ∧ (Tokens.Marked source ts → n.Placed source))
      (fun raw p n => p.Marks source (Token.template raw).spelling → n.Placed source) where
  opens _ _ h := h.1
  assignment _ p _ _ _ _ _ h := by
    refine ⟨⟨_, _, _, rfl, rfl⟩, fun hts => ?_⟩
    simp only [Tokens.marked_cons, Tokens.marked_append] at hts
    exact .of_text hts.1 hts.1 rfl (List.forall_mem_singleton.2 (h.2 hts.2.2.2))
  declaration _ p _ _ _ _ _ _ h := by
    refine ⟨⟨_, _, _, rfl, rfl⟩, fun hts => ?_⟩
    simp only [Tokens.marked_cons, Tokens.marked_append] at hts
    have hplace := hts.1.of_spelling "mut" (by decide)
    exact .of_text hplace hplace rfl (List.forall_mem_singleton.2 (h.2 hts.2.2.2.2))
  propertyAssignment _ _ _ _ _ _ _ _ hleft htarget _ h := by
    refine ⟨(hleft.opens.mono opensExpression_of_opensOperand).append _, fun hts => ?_⟩
    simp only [Tokens.marked_cons, Tokens.marked_append] at hts
    have hplaced := disjunction_marking (fun _ _ h => h.2) (fun _ _ _ h => h) hleft hts.1
    obtain ⟨hobject, heq⟩ := htarget.placed hplaced
    refine .of_text hplaced.marked.place heq rfl ?_
    simp only [NodeKind.children, List.forall_mem_cons]
    exact ⟨hobject, h.2 hts.2.2.2, by simp⟩
  disjunction _ _ h := ⟨h.opens.mono opensExpression_of_opensOperand,
    disjunction_marking (fun _ _ h => h.2) (fun _ _ _ h => h) h⟩
  template _ _ _ hparts hp := template_placed (fun _ _ h => h.2) hp hparts

end Phrase

namespace Program

/-- The places of the tree of a source text, at every node and every suffix, point at what they are
places of. -/
theorem parse_marks (source : String) (program : Node) (h : parse source = .ok program)
    (node : Node) (hnode : node.Within program) : node.Marked source.toList := by
  rw [parse, mapError_eq_ok, except_bind_eq_ok] at h
  obtain ⟨tokens, htokens, h⟩ := h
  obtain ⟨body, hbody, rfl⟩ := statementList_of_ofTokens (closed_placed source.toList) h
  have hmarked : Tokens.Marked source.toList tokens := fun t ht =>
    Position.marks_iff_stands.2 ((Token.tokenize_eq_ok.1 htokens).stands t ht)
  have hstart : Position.start.Marks source.toList [] :=
    Position.marks_iff_stands.2 (.nil _ .start)
  have hplaced : (⟨.statements body, .start⟩ : Node).Placed source.toList :=
    .of_text hstart (Or.inl rfl) rfl (statementList_marking (fun _ _ h => h.2) hbody hmarked)
  exact hplaced node hnode

def embeddedName : String := "b = \"é\n$\x7ba\x7d\""

theorem parse_marks_embeddedName :
    ∃ program node : Node, parse embeddedName = .ok program ∧ node.Within program ∧
      node.kind = .identifier "a" ∧ node.position = ⟨2, 3⟩ ∧
      node.Marked embeddedName.toList := by
  have hfound : ((parse embeddedName).toOption.bind fun program =>
      program.kind.children.head?.bind fun assignment =>
      assignment.kind.children.head?.bind fun template =>
      template.kind.children.getLast?.bind fun node =>
      match node.kind with
      | .identifier name => some (name, node.position)
      | _ => none) = some ("a", ⟨2, 3⟩) := by
    decide +kernel
  obtain ⟨program, hprogram, hfound⟩ := Option.bind_eq_some_iff.1 hfound
  obtain ⟨assignment, hassignment, hfound⟩ := Option.bind_eq_some_iff.1 hfound
  obtain ⟨template, htemplate, hfound⟩ := Option.bind_eq_some_iff.1 hfound
  obtain ⟨⟨kind, p⟩, hnode, hfound⟩ := Option.bind_eq_some_iff.1 hfound
  have hparse := toOption_eq_some.1 hprogram
  have hwithin : (⟨kind, p⟩ : Node).Within program :=
    .child (List.mem_of_mem_head? hassignment) (.child (List.mem_of_mem_head? htemplate)
      (.child (List.mem_of_mem_getLast? hnode) .self))
  split at hfound
  · next hkind =>
    cases hkind
    cases hfound
    exact ⟨program, _, hparse, hwithin, rfl, rfl, parse_marks _ program hparse _ hwithin⟩
  · cases hfound

end Program
end Scriptlet
