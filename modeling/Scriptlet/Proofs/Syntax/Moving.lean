import Scriptlet.Proofs.Syntax.Derivation
import Scriptlet.Proofs.Syntax.Tree
/-!
# Texts that begin elsewhere

What is read from a text does not depend on where the text begins. If its first place is moved, then
its tokens, the segments of its templates and the nodes of its tree are moved with it, and are
otherwise the same. This holds of every change of places that goes along with the steps over
characters (`Position.Moves`), and lowering a text by some lines is such a change. Main statement:
the statements of moved tokens are the moved statements (`Program.statementList_of_ofTokens_move`).
-/
namespace Scriptlet

open Phrase

namespace Position

/-- A change of places that goes along with the step over any character. -/
def Moves (f : Position → Position) : Prop :=
  ∀ p c, f (p.advance c) = (f p).advance c

def lower (lines : Nat) (p : Position) : Position :=
  ⟨p.line + lines, p.column⟩

theorem lower_moves (lines : Nat) : Moves (lower lines) := by
  intro p c
  unfold advance lower
  split
  · rw [Position.mk.injEq]
    exact ⟨Nat.add_right_comm .., rfl⟩
  · rfl

theorem Moves.after {f : Position → Position} (hf : Moves f) (p : Position) (text : List Char) :
    f (p.after text) = (f p).after text := by
  induction text generalizing p with
  | nil => rfl
  | cons c cs ih => rw [after_cons, after_cons, ih, hf]

end Position

def moveAll {α : Type} (f : Position → Position) (xs : List (α × Position)) : List (α × Position) :=
  xs.map fun (a, p) => (a, f p)

section Move

variable {α : Type} (f : Position → Position)

@[simp]
theorem moveAll_nil : moveAll f ([] : List (α × Position)) = [] := rfl

@[simp]
theorem moveAll_cons (a : α) (p : Position) (xs : List (α × Position)) :
    moveAll f ((a, p) :: xs) = (a, f p) :: moveAll f xs := rfl

@[simp]
theorem moveAll_append (xs ys : List (α × Position)) :
    moveAll f (xs ++ ys) = moveAll f xs ++ moveAll f ys :=
  List.map_append

theorem forall_mem_moveAll {P : α → Prop} {xs : List (α × Position)} (h : ∀ x ∈ xs, P x.1) :
    ∀ x ∈ moveAll f xs, P x.1 := by
  intro x hx
  obtain ⟨y, hy, rfl⟩ := List.mem_map.1 hx
  exact h y hy

end Move

/-! ## Scanning -/

section Scanning

variable {f : Position → Position} (hf : Position.Moves f)

include hf

theorem Token.Scanned.move {cs : List Char} {p : Position} {ts : Tokens} (h : Scanned cs p ts) :
    Scanned cs (f p) (moveAll f ts) := by
  induction h with
  | done => exact .done
  | token ht _ ih =>
    refine .token ht ?_
    rwa [← hf.after]
  | skipped hs _ ih =>
    refine .skipped hs ?_
    rwa [← hf.after]

namespace Template

omit hf in
theorem textSegment_move (text : List Char) (p : Position) :
    textSegment text (f p) = moveAll f (textSegment text p) := by
  unfold textSegment
  split <;> rfl

theorem textFrom_move :
    (∀ (p : Position) (cs : List Char),
      textFrom (f p) cs = ((textFrom p cs).1, moveAll f (textFrom p cs).2)) ∧
    ∀ (depth : Nat) (quoted : Bool) (p : Position) (cs : List Char),
      codeFrom depth quoted (f p) cs =
        (codeFrom depth quoted p cs).map fun (source, more) => (source, moveAll f more) := by
  apply textFrom.mutual_induct
  · intro p
    rfl
  · intro p
    rfl
  · intro p c rest text more heq ih
    rw [hf, hf, heq] at ih
    rw [textFrom, textFrom, heq, ih]
  · intro p rest start source more heq ih
    simp only [start] at heq ih
    rw [hf, hf, heq] at ih
    rw [textFrom, textFrom, heq, ih]
    simp [hf p, hf (p.advance '$')]
  · intro p rest start heq ih
    simp only [start] at heq ih
    rw [hf, hf, heq] at ih
    rw [textFrom, textFrom, heq, ih]
    rfl
  · intro p c rest h1 h2 h3 text more heq ih
    rw [hf, heq] at ih
    rw [textFrom, textFrom, heq, ih]
    all_goals assumption
  · intro depth quoted p
    rfl
  · intro depth quoted p c rest hc start text more heq ih
    simp only [start] at heq ih
    rw [hf, heq] at ih
    rw [codeFrom, codeFrom, if_pos hc, if_pos hc]
    dsimp only
    rw [heq, ih, ← hf, textSegment_move]
    simp
  · intro depth quoted p c rest hc depth' quoted' ih
    simp only [depth', quoted'] at ih
    rw [hf] at ih
    rw [codeFrom, codeFrom, if_neg hc, if_neg hc]
    dsimp only
    rw [ih]
    simp only [Option.map_map]
    rfl

theorem segments_move (raw : List Char) (p : Position) :
    segments raw (f p) = moveAll f (segments raw p) := by
  simp only [segments, (textFrom_move hf).1 p raw, textSegment_move, moveAll_append]

end Template

end Scanning

/-! ## Phrases -/

/-- Phrases of one kind, with their tokens and what they stand for moved, are phrases of another. -/
def Moving {α : Type} (f : Position → Position) (g : α → α) (phrase moved : Tokens → α → Prop) :
    Prop :=
  ∀ ⦃ts a⦄, phrase ts a → moved (moveAll f ts) (g a)

theorem NodeKind.relocate_arithmetic (f : Position → Position) (first : Node)
    (rest : List (ArithmeticOperator × Node)) : (NodeKind.arithmetic first rest).relocate f =
      .arithmetic (first.relocate f) (rest.map fun (op, operand) => (op, operand.relocate f)) := by
  rw [relocate, relocateLabelled_eq_map]

namespace Phrase

variable {f : Position → Position}

theorem Newlines.move {ts : Tokens} (h : Newlines ts) : Newlines (moveAll f ts) :=
  forall_mem_moveAll f (P := (· = Token.newline)) h

theorem Separators.move {ts : Tokens} (h : Separators ts) : Separators (moveAll f ts) :=
  forall_mem_moveAll f (P := (Grammar.isSeparator ·)) h

section Lists

variable {α : Type} {g : α → α} {item item' : Tokens → α → Prop} (h : Moving f g item item')

include h

theorem many_moving : Moving f (List.map g) (Many item) (Many item') := by
  intro ts as hmany
  induction hmany with
  | nil => exact .nil
  | cons ha _ ih =>
    rw [moveAll_append]
    exact .cons (h ha) ih

theorem items_moving (closing : Token) :
    Moving f (List.map g) (Items item closing) (Items item' closing) := by
  have hfurther : Moving f g (FurtherItem item) (FurtherItem item') := by
    rintro _ _ ⟨hnl, ha, hnl'⟩
    simp only [moveAll_cons, moveAll_append]
    exact .mk hnl.move (h ha) hnl'.move
  have htrailing : ∀ ts, TrailingComma ts → TrailingComma (moveAll f ts) := by
    rintro _ (_ | hnl)
    · exact .absent
    · exact .present hnl.move
  intro ts as hitems
  cases hitems with
  | empty hnl =>
    simp only [moveAll_append, moveAll_cons]
    exact .empty hnl.move
  | filled hnl ha hnl' has htrail =>
    simp only [moveAll_append, moveAll_cons]
    exact .filled hnl.move (h ha) hnl'.move (many_moving hfurther has) (htrailing _ htrail)

end Lists

section Constructs

variable {expr expr' : Tokens → Node → Prop} (h : Moving f (Node.relocate f) expr expr')

include h

theorem statementList_moving :
    Moving f (List.map (Node.relocate f)) (StatementList expr) (StatementList expr') := by
  have hfurther : Moving f (Node.relocate f) (FurtherStatement expr) (FurtherStatement expr') := by
    rintro _ _ ⟨hseps, hne, hn⟩
    rw [moveAll_append]
    exact .mk hseps.move (by simpa [moveAll] using hne) (h hn)
  intro ts body hlist
  cases hlist with
  | empty hseps => exact .empty hseps.move
  | filled hseps hn hns hseps' =>
    simp only [moveAll_append]
    exact .filled hseps.move (h hn) (many_moving hfurther hns) hseps'.move

theorem block_moving : Moving f (Node.relocate f) (Block expr) (Block expr') := by
  rintro _ _ ⟨hlist⟩
  simp only [moveAll_cons, moveAll_append, Node.relocate, NodeKind.relocate, relocateNodes_eq_map]
  exact .mk (statementList_moving h hlist)

theorem branch_moving :
    Moving f (fun (condition, body) => (condition.relocate f, body.relocate f)) (Branch expr)
      (Branch expr') := by
  rintro _ _ ⟨hcondition, hbody⟩
  rw [moveAll_append]
  exact .mk (h hcondition) (block_moving h hbody)

theorem alternatives_moving :
    Moving f (fun (branches, otherwise) =>
      (branches.map fun (condition, body) => (condition.relocate f, body.relocate f),
        otherwise.map (Node.relocate f))) (Alternatives expr) (Alternatives expr') := by
  have helseIf : Moving f (fun (condition, body) => (condition.relocate f, body.relocate f))
      (ElseIf expr) (ElseIf expr') := by
    rintro _ _ ⟨hnl, hbranch⟩
    simp only [moveAll_append, moveAll_cons]
    exact .mk hnl.move (branch_moving h hbranch)
  have helse : Moving f (Option.map (Node.relocate f)) (Else expr) (Else expr') := by
    rintro _ _ (_ | ⟨hnl, hbody⟩)
    · exact .absent
    · simp only [moveAll_append, moveAll_cons]
      exact .present hnl.move (block_moving h hbody)
  rintro _ _ ⟨hmore, hlast⟩
  rw [moveAll_append]
  exact .mk (many_moving helseIf hmore) (helse hlast)

theorem enclosed_moving (closing : Token) :
    Moving f (Node.relocate f) (Enclosed expr closing) (Enclosed expr' closing) := by
  rintro _ _ ⟨hnl, hn, hnl'⟩
  simp only [moveAll_append, moveAll_cons]
  exact .mk hnl.move (h hn) hnl'.move

theorem entry_moving :
    Moving f (fun (name, value) => (name, value.relocate f)) (Entry expr) (Entry expr') := by
  rintro _ _ ⟨hnl, hn⟩
  simp only [moveAll_append, moveAll_cons]
  exact .mk hnl.move (h hn)

theorem trailer_moving : Moving f (Suffix.relocate f) (Trailer expr) (Trailer expr') := by
  intro ts suffix htrailer
  cases htrailer with
  | arguments hitems =>
    simp only [moveAll_cons, Suffix.relocate, SuffixKind.relocate, relocateNodes_eq_map]
    exact .arguments (items_moving h .rightParen hitems)
  | index hindex => exact .index (enclosed_moving h .rightBracket hindex)
  | property => exact .property

end Constructs

section Levels

variable {side side' : Tokens → Node → Prop} (h : Moving f (Node.relocate f) side side')

include h

theorem operand_moving {α : Type} (operator? : Token → Option α) :
    Moving f (fun (op, operand) => (op, operand.relocate f)) (Operand operator? side)
      (Operand operator? side') := by
  rintro _ _ ⟨hop, hnl, hn⟩
  rw [moveAll_cons, moveAll_append]
  exact .mk hop hnl.move (h hn)

theorem chain_moving {α : Type} {operator? : Token → Option α}
    {make : Node → List (α × Node) → NodeKind}
    (hmake : ∀ first rest, (make first rest).relocate f =
      make (first.relocate f) (rest.map fun (op, operand) => (op, operand.relocate f))) :
    Moving f (Node.relocate f) (Chain operator? make side) (Chain operator? make side') := by
  intro ts n hchain
  cases hchain with
  | single hn => exact .single (h hn)
  | several hfirst hrest hne =>
    rw [moveAll_append, Node.relocate, hmake, ← Node.relocate_position f]
    exact .several (h hfirst) (many_moving (operand_moving h operator?) hrest) (by simpa using hne)

theorem unary_moving : Moving f (Node.relocate f) (Unary side) (Unary side') := by
  intro ts n hunary
  induction hunary with
  | unsigned hn => exact .unsigned (h hn)
  | signed hop _ ih => exact .signed hop ih

theorem comparison_moving : Moving f (Node.relocate f) (Comparison side) (Comparison side') := by
  intro ts n hcomparison
  cases hcomparison with
  | single hn => exact .single (h hn)
  | compared hleft hright =>
    rw [moveAll_append, Node.relocate, ← Node.relocate_position f]
    exact .compared (h hleft) (operand_moving h _ hright)

end Levels

section Expressions

variable {expr expr' : Tokens → Node → Prop} {leaf leaf' : String → Position → Node → Prop}
  (h : Moving f (Node.relocate f) expr expr')
  (hleaf : ∀ ⦃raw p n⦄, leaf raw p n → leaf' raw (f p) (n.relocate f))

include h hleaf

theorem primary_moving : Moving f (Node.relocate f) (Primary expr leaf) (Primary expr' leaf') := by
  intro ts n hprimary
  cases hprimary with
  | parenthesized hinner => exact .parenthesized (enclosed_moving h .rightParen hinner)
  | template hn => exact .template (hleaf hn)
  | number => exact .number
  | identifier => exact .identifier
  | plain => exact .plain
  | true => exact .true
  | false => exact .false
  | undefined => exact .undefined
  | whileLoop hbranch => exact .whileLoop (branch_moving h hbranch)
  | conditional hfirst hrest =>
    simp only [moveAll_cons, moveAll_append, Node.relocate, NodeKind.relocate,
      relocateBranches_eq_map, relocateOption_eq_map, List.map_cons]
    exact .conditional (branch_moving h hfirst) (alternatives_moving h hrest)
  | function hparams hbody =>
    have hparam : Moving f id Param Param := by
      rintro _ _ (_ | _)
      · exact .fixed
      · exact .mutable
    have hparams := items_moving hparam .rightParen hparams
    rw [List.map_id] at hparams
    simp only [moveAll_cons, moveAll_append]
    exact .function hparams (block_moving h hbody)
  | object hentries =>
    simp only [moveAll_cons, Node.relocate, NodeKind.relocate, relocateProperties_eq_map]
    exact .object (items_moving (entry_moving h) .rightBrace hentries)
  | array hitems =>
    simp only [moveAll_cons, Node.relocate, NodeKind.relocate, relocateNodes_eq_map]
    exact .array (items_moving h .rightBracket hitems)

theorem call_moving : Moving f (Node.relocate f) (Call expr leaf) (Call expr' leaf') := by
  intro ts n hcall
  cases hcall with
  | bare hn => exact .bare (primary_moving h hleaf hn)
  | trailed hcallee hsuffixes hne =>
    rw [moveAll_append, Node.relocate, NodeKind.relocate, relocateSuffixes_eq_map,
      ← Node.relocate_position f]
    exact .trailed (primary_moving h hleaf hcallee) (many_moving (trailer_moving h) hsuffixes)
      (by simpa using hne)

theorem disjunction_moving :
    Moving f (Node.relocate f) (Disjunction expr leaf) (Disjunction expr' leaf') := by
  have hproduct : Moving f (Node.relocate f) (Multiplicative expr leaf)
      (Multiplicative expr' leaf') := by
    rintro _ _ ⟨hn⟩
    exact .mk (chain_moving (call_moving h hleaf) (NodeKind.relocate_arithmetic f) hn)
  have hsum : Moving f (Node.relocate f) (Additive expr leaf) (Additive expr' leaf') := by
    rintro _ _ ⟨hn⟩
    exact .mk (chain_moving (unary_moving hproduct) (NodeKind.relocate_arithmetic f) hn)
  have hconjunction : Moving f (Node.relocate f) (Conjunction expr leaf)
      (Conjunction expr' leaf') := by
    rintro _ _ ⟨hn⟩
    refine .mk (chain_moving (comparison_moving hsum) (fun first rest => ?_) hn)
    simp [Grammar.listed, NodeKind.relocate, relocateNodes_eq_map]
  rintro _ _ ⟨hn⟩
  refine .mk (chain_moving hconjunction (fun first rest => ?_) hn)
  simp [Grammar.listed, NodeKind.relocate, relocateNodes_eq_map]

end Expressions

theorem Target.relocate {target object : Node} {name : String} (h : Target target object name) :
    Target (target.relocate f) (object.relocate f) name := by
  cases h with
  | bare => exact .bare
  | chain hne =>
    simp only [Node.relocate, NodeKind.relocate, relocateSuffixes_eq_map, List.map_append,
      List.map_cons, List.map_nil]
    exact .chain (by simpa using hne)

theorem segment_move (hf : Position.Moves f) {expr expr' : Tokens → Node → Prop}
    (h : Moving f (Node.relocate f) expr expr') {s : Template.Segment × Position} {n : Node}
    (hn : Segment expr s n) : Segment expr' (s.1, f s.2) (n.relocate f) := by
  cases hn with
  | text => exact .text
  | code htokens hnl hn hnl' =>
    have hmoved := (Token.tokenize_eq_ok.1 htokens).move hf
    rw [moveAll_append, moveAll_append] at hmoved
    exact .code (Token.tokenize_eq_ok.2 hmoved) hnl.move (h hn) hnl'.move

theorem closed_moved (hf : Position.Moves f) :
    Closed
      (fun ts n => Opens opensExpression ts ∧ Expression (moveAll f ts) (n.relocate f))
      (fun raw p n => Template raw (f p) (n.relocate f)) where
  opens _ _ h := h.1
  assignment _ _ _ _ _ _ hnl h := by
    refine ⟨⟨_, _, _, rfl, rfl⟩, ?_⟩
    simp only [moveAll_cons, moveAll_append]
    exact .assignment hnl.move h.2
  declaration _ _ _ _ _ _ _ hnl h := by
    refine ⟨⟨_, _, _, rfl, rfl⟩, ?_⟩
    simp only [moveAll_cons, moveAll_append]
    exact .declaration hnl.move h.2
  propertyAssignment _ _ _ _ _ _ _ _ hleft htarget hnl h := by
    refine ⟨(hleft.opens.mono opensExpression_of_opensOperand).append _, ?_⟩
    have hleft := disjunction_moving (fun _ _ h => h.2) (fun _ _ _ h => h) hleft
    simp only [moveAll_append, moveAll_cons, Node.relocate, NodeKind.relocate]
    rw [← Node.relocate_position f]
    exact .propertyAssignment hleft htarget.relocate hnl.move h.2
  disjunction _ _ h := ⟨h.opens.mono opensExpression_of_opensOperand,
    .disjunction (disjunction_moving (fun _ _ h => h.2) (fun _ _ _ h => h) h)⟩
  template raw p parts hparts := by
    simp only [Node.relocate, NodeKind.relocate, relocateNodes_eq_map]
    refine .mk ?_
    rw [← hf, Template.segments_move hf, moveAll, List.forall₂_map_left_iff,
      List.forall₂_map_right_iff]
    exact hparts.imp fun s n hn => segment_move hf (fun _ _ h => h.2) hn

end Phrase

/-- The statements that are read from tokens, moved, can be derived from the moved tokens. -/
theorem Program.statementList_of_ofTokens_move {f : Position → Position}
    (hf : Position.Moves f) {tokens : Tokens} {body : List Node}
    (h : ofTokens tokens = .ok ⟨.statements body, .start⟩) :
    StatementList Expression (moveAll f tokens) (body.map (Node.relocate f)) := by
  obtain ⟨body', hlist, heq⟩ := statementList_of_ofTokens (closed_moved hf) h
  cases heq
  exact statementList_moving (fun _ _ h => h.2) hlist

end Scriptlet
