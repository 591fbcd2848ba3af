import Scriptlet.Proofs.Syntax.Derivation
import Scriptlet.Proofs.Syntax.Tree
/-!
# Why a reader refuses its tokens

A reader that fails blames one of its tokens, or their end, or it passes on the error of a template
among them. Readers are compared here for two readers of templates, of which the second may succeed
where the first fails: their results are the same, unless the first one passes on such an error.
Main statement: the readers of expressions and of statements are alike in this sense
(`Grammar.expression_alike`, `Grammar.statements_alike`).
-/
namespace Scriptlet

open Phrase

abbrev TemplateReader := String → Position → Except SyntaxError Node

/-- Errors about the given tokens: that they end, or one of them at its place. -/
inductive SyntaxError.Blames (base : Tokens) : SyntaxError → Prop
  | ended : Blames base .atEnd
  | token {expected : Option Expectation} {t : Token} {p : Position} :
      (t, p) ∈ base → Blames base ⟨.unexpectedToken expected t, p⟩
  | target {t : Token} {p : Position} : (t, p) ∈ base → Blames base ⟨.invalidTarget, p⟩

/-- Results of readers that read templates by `f` and by `g`. They are the same, and an error is
about the given tokens, unless the first result is the error of a template among them. -/
inductive Agree (f g : TemplateReader) (base : Tokens) {β : Type} (good : β → Prop) :
    Except SyntaxError β → Except SyntaxError β → Prop
  | value {b : β} : good b → Agree f g base good (.ok b) (.ok b)
  | refused {e : SyntaxError} : e.Blames base → Agree f g base good (.error e) (.error e)
  | template {raw : String} {p : Position} {e : SyntaxError} {r : Except SyntaxError β} :
      (.template raw, p) ∈ base → f raw p = .error e → (g raw p = .error e → r = .error e) →
      Agree f g base good (.error e) r

theorem Agree.bind {f g : TemplateReader} {base : Tokens} {β γ : Type} {good : β → Prop}
    {good' : γ → Prop} {r r' : Except SyntaxError β} {k k' : β → Except SyntaxError γ}
    (h : Agree f g base good r r')
    (hk : ∀ b, r = .ok b → good b → Agree f g base good' (k b) (k' b)) :
    Agree f g base good' (r >>= k) (r' >>= k') := by
  cases h with
  | value hb => exact hk _ rfl hb
  | refused he => exact .refused he
  | template hmem hf hg =>
    refine .template hmem hf fun h => ?_
    rw [hg h]
    rfl

theorem Agree.eq {f g : TemplateReader} {base : Tokens} {β : Type} {good : β → Prop}
    {r r' : Except SyntaxError β} (h : Agree f g base good r r')
    (hsame : ∀ raw p, (.template raw, p) ∈ base → f raw p = g raw p) : r = r' := by
  cases h with
  | value | refused => rfl
  | template hmem hf hg => exact (hg ((hsame _ _ hmem).symm.trans hf)).symm

namespace Parser

variable {f g : TemplateReader} {α β : Type} {base ts : Tokens}

/-- The readers leave tokens at the end of those that they are given, and otherwise agree. -/
def Alike (f g : TemplateReader) (m m' : Parser α) : Prop :=
  ∀ ⦃base ts⦄, ts <:+ base → Agree f g base (·.2 <:+ base) (m ts) (m' ts)

theorem agree_bind {m m' : Parser α} {k k' : α → Parser β}
    (h : Agree f g base (·.2 <:+ base) (m ts) (m' ts))
    (hk : ∀ a rest, m ts = .ok (a, rest) → rest <:+ base →
      Agree f g base (·.2 <:+ base) (k a rest) (k' a rest)) :
    Agree f g base (·.2 <:+ base) ((m >>= k) ts) ((m' >>= k') ts) :=
  h.bind fun r => hk r.1 r.2

theorem agree_next_bind {k k' : Token × Position → Parser α} (hts : ts <:+ base)
    (hk : ∀ t p rest, (t, p) ∈ base → rest <:+ base →
      Agree f g base (·.2 <:+ base) (k (t, p) rest) (k' (t, p) rest)) :
    Agree f g base (·.2 <:+ base) ((next >>= k) ts) ((next >>= k') ts) := by
  cases ts with
  | nil => exact .refused .ended
  | cons t rest =>
    exact hk t.1 t.2 rest (hts.subset List.mem_cons_self) ((List.suffix_cons t rest).trans hts)

theorem lift_agree {x x' : Except SyntaxError α} (h : Agree f g base (fun _ => True) x x')
    (hts : ts <:+ base) :
    Agree f g base (·.2 <:+ base) ((liftM x : Parser α) ts) ((liftM x' : Parser α) ts) :=
  h.bind fun _ _ _ => .value hts

theorem Alike.bind {m m' : Parser α} {k k' : α → Parser β} (h : Alike f g m m')
    (hk : ∀ a, Alike f g (k a) (k' a)) : Alike f g (m >>= k) (m' >>= k') :=
  fun _ _ hts => agree_bind (h hts) fun a _ _ hrest => hk a hrest

theorem get_alike {k k' : Tokens → Parser α} (hk : ∀ us, Alike f g (k us) (k' us)) :
    Alike f g (get >>= k) (get >>= k') :=
  fun _ ts hts => hk ts hts

theorem pure_alike (a : α) : Alike f g (pure a) (pure a) :=
  fun _ _ hts => .value hts

theorem discard_alike {m m' : Parser α} (h : Alike f g m m') :
    Alike f g (discard m) (discard m') :=
  fun _ _ hts => (h hts).bind fun _ _ hrest => .value hrest

theorem next_alike : Alike f g next next := by
  intro base ts hts
  cases ts with
  | nil => exact .refused .ended
  | cons t rest => exact .value ((List.suffix_cons t rest).trans hts)

theorem dropNewlines_suffix (hts : ts <:+ base) : dropNewlines ts <:+ base :=
  (List.dropWhile_suffix _).trans hts

theorem skipNewlines_alike : Alike f g skipNewlines skipNewlines :=
  fun _ _ hts => .value (dropNewlines_suffix hts)

theorem expect_alike (token : Token) (expected : Expectation) :
    Alike f g (expect token expected) (expect token expected) := by
  intro base ts hts
  refine agree_next_bind hts fun t p rest hmem hrest => ?_
  dsimp only
  split
  · exact .value hrest
  · exact .refused (.token hmem)

theorem identifier_alike : Alike f g identifier identifier := by
  intro base ts hts
  refine agree_next_bind hts fun t p rest hmem hrest => ?_
  cases t with
  | identifier name => exact .value hrest
  | _ => exact .refused (.token hmem)

theorem repeated_alike {step step' : Parser (Option α)} (h : Alike f g step step') (n : Nat) :
    Alike f g (repeated step n) (repeated step' n) := by
  induction n with
  | zero => exact pure_alike []
  | succ n ih =>
    refine h.bind fun r => ?_
    cases r with
    | none => exact pure_alike []
    | some a => exact ih.bind fun as => pure_alike (a :: as)

theorem many_alike {step step' : Parser (Option α)} (h : Alike f g step step') :
    Alike f g (many step) (many step') :=
  get_alike fun us => repeated_alike h us.length

theorem itemsUntil_alike {item item' : Parser α} (h : Alike f g item item') (closing : Token)
    (n : Nat) : Alike f g (itemsUntil item closing n) (itemsUntil item' closing n) := by
  induction n with
  | zero => exact fun _ _ _ => .refused .ended
  | succ n ih =>
    intro base ts hts
    have hts := dropNewlines_suffix hts
    rw [itemsUntil, itemsUntil, skipNewlines_bind, skipNewlines_bind, peek_bind, peek_bind]
    split_ifs with hclosing
    · exact (discard_alike next_alike).bind (fun _ => pure_alike []) hts
    · refine agree_bind (h hts) fun a rest _ hrest => ?_
      refine agree_bind (skipNewlines_alike hrest) fun _ rest _ hrest => ?_
      refine agree_next_bind hrest fun t p rest hmem hrest => ?_
      dsimp only
      split_ifs
      · exact ih.bind (fun as => pure_alike (a :: as)) hrest
      · exact .value hrest
      · exact .refused (.token hmem)

theorem commaList_alike {item item' : Parser α} (h : Alike f g item item') (closing : Token) :
    Alike f g (commaList item closing) (commaList item' closing) :=
  get_alike fun us => itemsUntil_alike h closing (us.length + 1)

end Parser

namespace Grammar

open Scriptlet.Parser

variable {f g : TemplateReader}

theorem operator_alike {α : Type} (operator? : Token → Option α) :
    Alike f g (operator operator?) (operator operator?) := by
  intro base ts hts
  rw [operator, peek_bind]
  cases (ts.head?.map (·.1)).bind operator? with
  | none => exact .value hts
  | some op =>
    exact (discard_alike next_alike).bind
      (fun _ => skipNewlines_alike.bind fun _ => pure_alike (some op)) hts

section Constructs

variable {expr expr' : Parser Node} (h : Alike f g expr expr')

include h

theorem operand_alike {α : Type} (operator? : Token → Option α) :
    Alike f g (operand operator? expr) (operand operator? expr') := by
  refine (operator_alike operator?).bind fun r => ?_
  cases r with
  | none => exact pure_alike none
  | some op => exact h.bind fun n => pure_alike (some (op, n))

theorem chain_alike {α : Type} (operator? : Token → Option α)
    (make : Node → List (α × Node) → NodeKind) :
    Alike f g (chain operator? make expr) (chain operator? make expr') := by
  refine h.bind fun first => (many_alike (operand_alike h operator?)).bind fun rest => ?_
  cases rest with
  | nil => exact pure_alike first
  | cons o os => exact pure_alike _

theorem statementsWithin_alike (k : Nat) :
    Alike f g (statementsWithin expr k) (statementsWithin expr' k) := by
  induction k with
  | zero => exact fun _ _ _ => .refused .ended
  | succ k ih =>
    intro base ts hts
    have hts : ts.dropWhile (isSeparator ·.1) <:+ base := (List.dropWhile_suffix _).trans hts
    rw [statementsWithin, statementsWithin, modify_bind, modify_bind, peek_bind, peek_bind]
    split_ifs with hend
    · exact .value hts
    · refine agree_bind (h hts) fun n rest _ hrest => ?_
      cases rest with
      | nil => exact .value hrest
      | cons t more =>
        rw [get_bind, get_bind]
        dsimp only
        split_ifs with hseparator
        · exact ih.bind (fun ns => pure_alike (n :: ns)) hrest
        · exact .refused (.token (hrest.subset List.mem_cons_self))

theorem statements_alike (p : Position) :
    Alike f g (statements expr p) (statements expr' p) :=
  get_alike fun us => (statementsWithin_alike h (us.length + 1)).bind fun _ => pure_alike _

theorem block_alike : Alike f g (block expr) (block expr') :=
  (expect_alike _ _).bind fun p => (statements_alike h p).bind fun body =>
    (discard_alike (expect_alike _ _)).bind fun _ => pure_alike body

theorem branch_alike : Alike f g (branch expr) (branch expr') :=
  h.bind fun _ => (block_alike h).bind fun _ => pure_alike _

theorem whileLoop_alike : Alike f g (whileLoop expr) (whileLoop expr') :=
  h.bind fun _ => (block_alike h).bind fun _ => pure_alike _

omit h in
theorem elseWord_alike : Alike f g elseWord elseWord := by
  intro base ts hts
  have hdrop := dropNewlines_suffix hts
  rw [elseWord, get_bind]
  cases hafter : dropNewlines ts with
  | nil => exact .value hts
  | cons t rest =>
    obtain ⟨t, p⟩ := t
    rw [hafter] at hdrop
    cases t with
    | kwElse => exact .value ((List.suffix_cons _ rest).trans hdrop)
    | _ => exact .value hts

theorem alternatives_alike (k : Nat) :
    Alike f g (alternatives expr k) (alternatives expr' k) := by
  induction k with
  | zero => exact pure_alike _
  | succ k ih =>
    refine elseWord_alike.bind fun found => ?_
    cases found with
    | false => exact pure_alike _
    | true =>
      intro base ts hts
      rw [if_pos rfl, if_pos rfl, peek_bind, peek_bind]
      split_ifs
      · exact (discard_alike next_alike).bind (fun _ => (branch_alike h).bind fun _ =>
          ih.bind fun _ => pure_alike _) hts
      · exact (block_alike h).bind (fun _ => pure_alike _) hts

theorem conditional_alike : Alike f g (conditional expr) (conditional expr') :=
  (branch_alike h).bind fun _ => get_alike fun us =>
    (alternatives_alike h us.length).bind fun _ => pure_alike _

omit h in
theorem parameter_alike : Alike f g parameter parameter := by
  intro base ts hts
  rw [parameter, peek_bind]
  split_ifs
  · exact (discard_alike next_alike).bind
      (fun _ => identifier_alike.bind fun _ => pure_alike _) hts
  · exact identifier_alike.bind (fun _ => pure_alike _) hts

theorem function_alike : Alike f g (function expr) (function expr') :=
  (discard_alike (expect_alike _ _)).bind fun _ => (commaList_alike parameter_alike _).bind
    fun _ => (block_alike h).bind fun _ => pure_alike _

theorem property_alike : Alike f g (property expr) (property expr') :=
  identifier_alike.bind fun _ => (discard_alike (expect_alike _ _)).bind fun _ =>
    skipNewlines_alike.bind fun _ => h.bind fun _ => pure_alike _

theorem enclosed_alike (closing : Token) (expected : Expectation) :
    Alike f g (enclosed expr closing expected) (enclosed expr' closing expected) :=
  skipNewlines_alike.bind fun _ => h.bind fun inner => skipNewlines_alike.bind fun _ =>
    (discard_alike (expect_alike _ _)).bind fun _ => pure_alike inner

theorem assigned_alike : Alike f g (assigned expr) (assigned expr') :=
  skipNewlines_alike.bind fun _ => h

omit h in
theorem suffix_cases (ts : Tokens) :
    (∃ p rest, ts = (.leftParen, p) :: rest) ∨ (∃ p rest, ts = (.leftBracket, p) :: rest) ∨
      (∃ p rest, ts = (.dot, p) :: rest) ∨ ∀ expr, suffix expr ts = .ok (none, ts) := by
  cases ts with
  | nil => exact .inr (.inr (.inr fun _ => rfl))
  | cons t rest =>
    obtain ⟨t, p⟩ := t
    cases t with
    | leftParen => exact .inl ⟨p, rest, rfl⟩
    | leftBracket => exact .inr (.inl ⟨p, rest, rfl⟩)
    | dot => exact .inr (.inr (.inl ⟨p, rest, rfl⟩))
    | _ => exact .inr (.inr (.inr fun _ => rfl))

theorem suffix_alike : Alike f g (suffix expr) (suffix expr') := by
  intro base ts hts
  rcases suffix_cases ts with ⟨p, rest, rfl⟩ | ⟨p, rest, rfl⟩ | ⟨p, rest, rfl⟩ | hnone
  · have hrest := (List.suffix_cons _ rest).trans hts
    exact (commaList_alike h .rightParen).bind
      (fun items => pure_alike (some (Suffix.mk (.arguments items) p))) hrest
  · have hrest := (List.suffix_cons _ rest).trans hts
    exact (enclosed_alike h .rightBracket .closingBracket).bind
      (fun place => pure_alike (some (Suffix.mk (.index place) p))) hrest
  · have hrest := (List.suffix_cons _ rest).trans hts
    exact identifier_alike.bind (fun name => pure_alike (some (Suffix.mk (.property name) p))) hrest
  · rw [hnone, hnone]
    exact .value hts

omit h in
theorem template_agree (hfg : ∀ ⦃raw p n⦄, f raw p = .ok n → g raw p = .ok n) {base : Tokens}
    {raw : String} {p : Position} (hmem : (.template raw, p) ∈ base) :
    Agree f g base (fun _ => True) (f raw p) (g raw p) := by
  cases hraw : f raw p with
  | ok n =>
    rw [hfg hraw]
    exact .value trivial
  | error e => exact .template hmem hraw id

section Levels

variable (hfg : ∀ ⦃raw p n⦄, f raw p = .ok n → g raw p = .ok n)

include hfg

theorem primary_alike : Alike f g (primary expr f) (primary expr' g) := by
  intro base ts hts
  refine agree_next_bind hts fun t p rest hmem hrest => ?_
  cases t with
  | template raw => exact lift_agree (template_agree hfg hmem) hrest
  | leftParen => exact enclosed_alike h .rightParen .closingParen hrest
  | kwWhile => exact (whileLoop_alike h).bind (fun _ => pure_alike _) hrest
  | kwIf => exact (conditional_alike h).bind (fun _ => pure_alike _) hrest
  | kwFn => exact (function_alike h).bind (fun _ => pure_alike _) hrest
  | leftBrace =>
    exact (commaList_alike (property_alike h) .rightBrace).bind (fun _ => pure_alike _) hrest
  | leftBracket => exact (commaList_alike h .rightBracket).bind (fun _ => pure_alike _) hrest
  | number | kwTrue | kwFalse | kwUndefined | identifier | plain => exact .value hrest
  | _ => exact .refused (.token hmem)

theorem call_alike : Alike f g (call expr f) (call expr' g) := by
  refine (primary_alike h hfg).bind fun callee => (many_alike (suffix_alike h)).bind
    fun suffixes => ?_
  cases suffixes with
  | nil => exact pure_alike callee
  | cons s ss => exact pure_alike _

omit h hfg in
theorem sign_alike : Alike f g sign sign := by
  intro base ts hts
  cases ts with
  | nil => exact .value hts
  | cons t rest =>
    obtain ⟨t, p⟩ := t
    rw [sign, get_bind]
    dsimp only
    cases unaryOperator? t with
    | none => exact .value hts
    | some op => exact .value ((List.suffix_cons _ rest).trans hts)

theorem unary_alike : Alike f g (unary expr f) (unary expr' g) :=
  (many_alike sign_alike).bind fun _ =>
    (chain_alike (call_alike h hfg) multiplicativeOperator? .arithmetic).bind fun _ => pure_alike _

theorem comparison_alike : Alike f g (comparison expr f) (comparison expr' g) := by
  have hsum : Alike f g (additive expr f) (additive expr' g) :=
    chain_alike (unary_alike h hfg) additiveOperator? .arithmetic
  refine hsum.bind fun left => (operand_alike hsum comparisonOperator?).bind fun r => ?_
  cases r with
  | none => exact pure_alike left
  | some o => exact pure_alike _

theorem disjunction_alike : Alike f g (disjunction expr f) (disjunction expr' g) :=
  chain_alike (chain_alike (comparison_alike h hfg) _ _) _ _

end Levels

end Constructs

end Grammar

theorem Tokens.checkEnd_agree {f g : TemplateReader} {base ts : Tokens} (hts : ts <:+ base) :
    Agree f g base (fun _ => True) ts.checkEnd ts.checkEnd := by
  cases ts with
  | nil => exact .value trivial
  | cons t rest => exact .refused (.token (hts.subset List.mem_cons_self))

/-! ## What is assigned to -/

structure Node.FromTokens (ts : Tokens) (node : Node) : Prop where
  place : ∃ t ∈ ts, t.2 = node.position
  suffixes : ∀ suffix ∈ node.kind.suffixes, ∃ t ∈ ts, t.2 = suffix.position

namespace Phrase

variable {ts us : Tokens} {n : Node}

theorem fromTokens_mono (h : n.FromTokens ts) (hsub : ts ⊆ us) : n.FromTokens us where
  place := h.place.imp fun _ ht => ⟨hsub ht.1, ht.2⟩
  suffixes s hs := (h.suffixes s hs).imp fun _ ht => ⟨hsub ht.1, ht.2⟩

theorem fromTokens_mk {kind : NodeKind} {p : Position} (hplace : ∃ t ∈ ts, t.2 = p)
    (hkind : kind.suffixes = []) : (⟨kind, p⟩ : Node).FromTokens ts :=
  ⟨hplace, by simp [hkind]⟩

def KeepsPlaces (phrase : Tokens → Node → Prop) : Prop :=
  ∀ ⦃ts n⦄, phrase ts n → n.FromTokens ts

section Levels

variable {expr side : Tokens → Node → Prop} {leaf : String → Position → Node → Prop}

theorem primary_keepsPlaces (h : KeepsPlaces expr)
    (hleaf : ∀ ⦃raw p n⦄, leaf raw p n → n.position = p ∧ n.kind.suffixes = []) :
    KeepsPlaces (Primary expr leaf) := by
  intro ts n hprimary
  cases hprimary with
  | template hn =>
    obtain ⟨hp, hkind⟩ := hleaf hn
    exact ⟨⟨_, List.mem_cons_self, hp.symm⟩, by simp [hkind]⟩
  | parenthesized hinner =>
    cases hinner with
    | mk _ hn _ =>
      refine fromTokens_mono (h hn) fun t ht => ?_
      simp [ht]
  | _ => exact fromTokens_mk ⟨_, List.mem_cons_self, rfl⟩ rfl

theorem many_trailer_places {suffixes : List Suffix} (h : Many (Trailer expr) ts suffixes) :
    ∀ suffix ∈ suffixes, ∃ t ∈ ts, t.2 = suffix.position := by
  induction h with
  | nil => simp
  | @cons us more s ss hs _ ih =>
    rw [List.forall_mem_cons]
    constructor
    · have hfirst : ∃ t ∈ us, t.2 = s.position := by
        cases hs <;> exact ⟨_, List.mem_cons_self, rfl⟩
      exact hfirst.imp fun t ht => ⟨List.mem_append_left _ ht.1, ht.2⟩
    · exact fun s' hs' => (ih s' hs').imp fun t ht => ⟨List.mem_append_right _ ht.1, ht.2⟩

theorem call_keepsPlaces (h : KeepsPlaces expr)
    (hleaf : ∀ ⦃raw p n⦄, leaf raw p n → n.position = p ∧ n.kind.suffixes = []) :
    KeepsPlaces (Call expr leaf) := by
  intro ts n hcall
  cases hcall with
  | bare hn => exact primary_keepsPlaces h hleaf hn
  | trailed hcallee hsuffixes _ =>
    constructor
    · exact (fromTokens_mono (primary_keepsPlaces h hleaf hcallee)
        (List.subset_append_left _ _)).place
    · exact fun s hs => (many_trailer_places hsuffixes s hs).imp fun t ht =>
        ⟨List.mem_append_right _ ht.1, ht.2⟩

theorem chain_keepsPlaces {α : Type} {operator? : Token → Option α}
    {make : Node → List (α × Node) → NodeKind} (h : KeepsPlaces side)
    (hmake : ∀ first rest, (make first rest).suffixes = []) :
    KeepsPlaces (Chain operator? make side) := by
  intro ts n hchain
  cases hchain with
  | single hn => exact h hn
  | several hfirst _ _ =>
    exact fromTokens_mk (fromTokens_mono (h hfirst) (List.subset_append_left _ _)).place (hmake _ _)

theorem unary_keepsPlaces (h : KeepsPlaces side) : KeepsPlaces (Unary side) := by
  intro ts n hunary
  cases hunary with
  | unsigned hn => exact h hn
  | signed _ _ => exact fromTokens_mk ⟨_, List.mem_cons_self, rfl⟩ rfl

theorem comparison_keepsPlaces (h : KeepsPlaces side) : KeepsPlaces (Comparison side) := by
  intro ts n hcomparison
  cases hcomparison with
  | single hn => exact h hn
  | compared hleft _ =>
    exact fromTokens_mk (fromTokens_mono (h hleft) (List.subset_append_left _ _)).place rfl

theorem disjunction_keepsPlaces (h : KeepsPlaces expr)
    (hleaf : ∀ ⦃raw p n⦄, leaf raw p n → n.position = p ∧ n.kind.suffixes = []) :
    KeepsPlaces (Disjunction expr leaf) := by
  have hproduct : KeepsPlaces (Multiplicative expr leaf) := by
    rintro _ _ ⟨hn⟩
    exact chain_keepsPlaces (call_keepsPlaces h hleaf) (fun _ _ => rfl) hn
  have hsum : KeepsPlaces (Additive expr leaf) := by
    rintro _ _ ⟨hn⟩
    exact chain_keepsPlaces (unary_keepsPlaces hproduct) (fun _ _ => rfl) hn
  have hconjunction : KeepsPlaces (Conjunction expr leaf) := by
    rintro _ _ ⟨hn⟩
    exact chain_keepsPlaces (comparison_keepsPlaces hsum) (fun _ _ => rfl) hn
  rintro _ _ ⟨hn⟩
  exact chain_keepsPlaces hconjunction (fun _ _ => rfl) hn

theorem closed_fromTokens :
    Closed (fun ts n => Opens opensExpression ts ∧ n.FromTokens ts)
      (fun _ p n => n.position = p ∧ n.kind.suffixes = []) where
  opens _ _ h := h.1
  assignment _ _ _ _ _ _ _ _ := ⟨⟨_, _, _, rfl, rfl⟩,
    fromTokens_mk ⟨_, List.mem_cons_self, rfl⟩ rfl⟩
  declaration _ _ _ _ _ _ _ _ _ := ⟨⟨_, _, _, rfl, rfl⟩,
    fromTokens_mk ⟨_, List.mem_cons_self, rfl⟩ rfl⟩
  propertyAssignment _ _ _ _ _ _ _ _ hleft _ _ _ := by
    have hplaces := disjunction_keepsPlaces (fun _ _ h => h.2) (fun _ _ _ h => h) hleft
    exact ⟨(hleft.opens.mono opensExpression_of_opensOperand).append _,
      fromTokens_mk (fromTokens_mono hplaces (List.subset_append_left _ _)).place rfl⟩
  disjunction _ _ h := ⟨h.opens.mono opensExpression_of_opensOperand,
    disjunction_keepsPlaces (fun _ _ h => h.2) (fun _ _ _ h => h) h⟩
  template _ _ _ _ := ⟨rfl, rfl⟩

end Levels

end Phrase

/-! ## Expressions -/

namespace Grammar

open Scriptlet.Parser

variable {f g : TemplateReader}

theorem target_agree {base : Tokens} {left : Node} (h : left.FromTokens base) :
    Agree f g base (fun _ => True) (target left) (target left) := by
  have hblames {p : Position} (hp : ∃ t ∈ base, t.2 = p) :
      SyntaxError.Blames base ⟨.invalidTarget, p⟩ := by
    obtain ⟨⟨t, _⟩, ht, rfl⟩ := hp
    exact .target ht
  unfold target
  split
  · next callee suffixes hkind =>
    have hsuffixes := h.suffixes
    rw [hkind] at hsuffixes
    split
    · split
      · exact .value trivial
      · exact .value trivial
    · next kind p _ hlast => exact .refused (hblames (hsuffixes _ (List.mem_of_getLast? hlast)))
    · exact .refused (hblames h.place)
  · exact .refused (hblames h.place)

theorem level_cases (ts : Tokens) :
    (∃ p rest, ts = (.kwMut, p) :: rest) ∨
      (∃ name p q rest, ts = (.identifier name, p) :: (.equals, q) :: rest) ∨
      ∀ expr f, level expr f ts = unnamed expr f ts := by
  by_cases hmut : ∃ p rest, ts = (.kwMut, p) :: rest
  · exact .inl hmut
  by_cases hname : ∃ name p q rest, ts = (.identifier name, p) :: (.equals, q) :: rest
  · exact .inr (.inl hname)
  · refine .inr (.inr fun expr f => ?_)
    rw [level, get_bind]
    split
    · exact absurd ⟨_, _, rfl⟩ hmut
    · exact absurd ⟨_, _, _, _, rfl⟩ hname
    · rfl

section Expressions

variable {expr expr' : Parser Node} (h : Alike f g expr expr')
  (hfg : ∀ ⦃raw p n⦄, f raw p = .ok n → g raw p = .ok n)

include h hfg

theorem unnamed_alike (hleft : Sound (disjunction expr f) fun ts n => n.FromTokens ts) :
    Alike f g (unnamed expr f) (unnamed expr' g) := by
  intro base ts hts
  refine agree_bind (disjunction_alike h hfg hts) fun left rest hread hrest => ?_
  obtain ⟨used, rfl, hused⟩ := hleft hread
  have hbase : left.FromTokens base :=
    fromTokens_mono hused fun t ht => hts.subset (List.mem_append_left _ ht)
  rw [peek_bind, peek_bind]
  split_ifs
  · refine agree_bind (lift_agree (target_agree hbase) hrest) fun r rest _ hrest => ?_
    exact (discard_alike next_alike).bind (fun _ => (assigned_alike h).bind fun value =>
      pure_alike (Node.mk (.propertyAssignment r.1 r.2 value) left.position)) hrest
  · exact .value hrest

theorem level_alike (hleft : Sound (disjunction expr f) fun ts n => n.FromTokens ts) :
    Alike f g (level expr f) (level expr' g) := by
  intro base ts hts
  rcases level_cases ts with ⟨p, rest, rfl⟩ | ⟨name, p, q, rest, rfl⟩ | hother
  · have hrest := (List.suffix_cons _ rest).trans hts
    exact identifier_alike.bind (fun name => (discard_alike (expect_alike _ _)).bind fun _ =>
      (assigned_alike h).bind fun value =>
        pure_alike (Node.mk (.assignment true name value) p)) hrest
  · have hrest := ((List.suffix_cons _ rest).trans (List.suffix_cons _ _)).trans hts
    exact (assigned_alike h).bind
      (fun value => pure_alike (Node.mk (.assignment false name value) p)) hrest
  · rw [hother, hother]
    exact unnamed_alike h hfg hleft hts

end Expressions

/-- Readers of expressions give the same results with two readers of templates, of which the second
gives every node that the first one gives, unless they meet a template that the first refuses. -/
theorem expression_alike (hfg : ∀ ⦃raw p n⦄, f raw p = .ok n → g raw p = .ok n)
    (hleaf : ∀ ⦃raw p n⦄, f raw p = .ok n → n.position = p ∧ n.kind.suffixes = []) (k : Nat) :
    Alike f g (expression f k) (expression g k) := by
  induction k with
  | zero => exact fun _ _ _ => .refused .ended
  | succ k ih =>
    refine level_alike ih hfg fun ts n rest hread => ?_
    have hexpr := expression_sound closed_fromTokens hleaf k
    obtain ⟨used, hused, hn⟩ := disjunction_sound hexpr closed_fromTokens.opens hleaf hread
    exact ⟨used, hused, disjunction_keepsPlaces (fun _ _ h => h.2) (fun _ _ _ h => h) hn⟩

end Grammar
end Scriptlet
