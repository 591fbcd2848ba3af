import Scriptlet.Proofs.Syntax.Refusal
import Scriptlet.Proofs.Syntax.Rounds
/-!
# What a reader asks of nested readers

A reader of the grammar is given a reader of nested expressions and a reader of templates. It asks
the first one about ends of its tokens, with at least one token before them, and the second one
about templates among its tokens. Two pairs of readers that give the same for these make the same
reader. Main statement: this holds from the tightest level up to the whole of an expression
(`Grammar.level_coincide`).
-/
namespace Scriptlet

namespace Parser

variable {α β : Type} {base ts rest : Tokens} {t : Token × Position}

/-- The readers give the same on all ends of the given tokens, and leave an end of what they are
given. -/
def Coincide (base : Tokens) (m m' : Parser α) : Prop :=
  ∀ ⦃ts⦄, ts <:+ base → m ts = m' ts ∧ ∀ ⦃a rest⦄, m ts = .ok (a, rest) → rest <:+ ts

theorem suffix_tail (h : t :: rest <:+ base) : rest <:+ base.tail := by
  obtain ⟨before, rfl⟩ := h
  cases before with
  | nil => exact List.suffix_rfl
  | cons u before => exact ((List.suffix_cons t rest).trans (List.suffix_append _ _))

theorem Coincide.mono {m m' : Parser α} (h : Coincide base m m') (hts : ts <:+ base) :
    Coincide ts m m' :=
  fun _ hus => h (hus.trans hts)

theorem Coincide.of_suffix {m : Parser α}
    (h : ∀ ⦃ts a rest⦄, m ts = .ok (a, rest) → rest <:+ ts) : Coincide base m m :=
  fun _ _ => ⟨rfl, fun _ _ hm => h hm⟩

theorem Coincide.bind {m m' : Parser α} {k k' : α → Parser β} (h : Coincide base m m')
    (hk : ∀ a, Coincide base (k a) (k' a)) : Coincide base (m >>= k) (m' >>= k') := by
  intro ts hts
  obtain ⟨heq, hsuffix⟩ := h hts
  refine ⟨bind_congr heq fun a rest hm => (hk a ((hsuffix hm).trans hts)).1, fun b rest hb => ?_⟩
  obtain ⟨a, mid, hm, hb⟩ := bind_eq_ok.1 hb
  exact ((hk a ((hsuffix hm).trans hts)).2 hb).trans (hsuffix hm)

/-- Past a token, readers have to give the same on shorter ends only. -/
theorem Coincide.past {m m' : Parser α} (h : Coincide base.tail m m') (hts : t :: ts <:+ base)
    (hrest : rest <:+ ts) :
    m rest = m' rest ∧ ∀ ⦃a more⦄, m rest = .ok (a, more) → more <:+ t :: ts := by
  obtain ⟨heq, hsuffix⟩ := h (hrest.trans (suffix_tail hts))
  exact ⟨heq, fun a more hm => (hsuffix hm).trans (hrest.trans (List.suffix_cons t ts))⟩

theorem pure_coincide (a : α) : Coincide base (pure a) (pure a) :=
  .of_suffix fun _ _ _ h => (pure_eq_ok.1 h).2 ▸ List.suffix_rfl

theorem throw_coincide (e : SyntaxError) : Coincide base (throw e : Parser α) (throw e) :=
  .of_suffix fun _ _ _ h => by cases h

theorem get_coincide {k k' : Tokens → Parser α} (hk : ∀ us, Coincide base (k us) (k' us)) :
    Coincide base (get >>= k) (get >>= k') :=
  fun ts hts => hk ts hts

theorem peek_coincide {k k' : Option Token → Parser α} (hk : ∀ t, Coincide base (k t) (k' t)) :
    Coincide base (peek >>= k) (peek >>= k') :=
  fun ts hts => hk (ts.head?.map Prod.fst) hts

theorem modify_coincide {change : Tokens → Tokens} (hchange : ∀ ts, change ts <:+ ts)
    {k k' : PUnit → Parser α} (hk : Coincide base (k ⟨⟩) (k' ⟨⟩)) :
    Coincide base (modify change >>= k) (modify change >>= k') := by
  intro ts hts
  obtain ⟨heq, hsuffix⟩ := hk ((hchange ts).trans hts)
  exact ⟨heq, fun a rest h => (hsuffix h).trans (hchange ts)⟩

theorem skipNewlines_coincide {k k' : Unit → Parser α} (hk : Coincide base (k ()) (k' ())) :
    Coincide base (skipNewlines >>= k) (skipNewlines >>= k') :=
  modify_coincide (fun _ => List.dropWhile_suffix _) hk

theorem lift_coincide {x x' : Except SyntaxError α} (h : x = x') :
    Coincide base (liftM x : Parser α) (liftM x') := by
  subst h
  exact .of_suffix fun _ _ _ h => (lift_eq_ok.1 h).2 ▸ List.suffix_rfl

theorem discard_coincide {m m' : Parser α} (h : Coincide base m m') :
    Coincide base (discard m) (discard m') :=
  h.bind fun _ => pure_coincide ()

theorem next_coincide {k k' : Token × Position → Parser α}
    (hk : ∀ t ∈ base, Coincide base.tail (k t) (k' t)) :
    Coincide base (next >>= k) (next >>= k') := by
  intro ts hts
  cases ts with
  | nil => exact ⟨rfl, fun _ _ h => by cases h⟩
  | cons t rest => exact (hk t (hts.subset List.mem_cons_self)).past hts List.suffix_rfl

theorem discard_next_coincide {k k' : Unit → Parser α} (hk : Coincide base.tail (k ()) (k' ())) :
    Coincide base (discard next >>= k) (discard next >>= k') := by
  intro ts hts
  cases ts with
  | nil => exact ⟨rfl, fun _ _ h => by cases h⟩
  | cons t rest => exact hk.past hts List.suffix_rfl

theorem expect_coincide (token : Token) (expected : Expectation) :
    Coincide base (expect token expected) (expect token expected) :=
  .of_suffix fun _ _ _ h => expect_eq_ok.1 h ▸ List.suffix_cons _ _

theorem identifier_coincide : Coincide base identifier identifier := by
  refine .of_suffix fun ts name rest h => ?_
  obtain ⟨p, rfl⟩ := identifier_eq_ok.1 h
  exact List.suffix_cons _ _

theorem repeated_coincide {step step' : Parser (Option α)} (h : Coincide base step step')
    (n : Nat) : Coincide base (repeated step n) (repeated step' n) := by
  induction n with
  | zero => exact pure_coincide []
  | succ n ih =>
    refine h.bind fun r => ?_
    cases r with
    | none => exact pure_coincide []
    | some a => exact ih.bind fun as => pure_coincide (a :: as)

theorem many_coincide {step step' : Parser (Option α)} (h : Coincide base step step') :
    Coincide base (many step) (many step') :=
  get_coincide fun us => repeated_coincide h us.length

theorem itemsUntil_coincide {item item' : Parser α} (h : Coincide base item item')
    (closing : Token) (n : Nat) :
    Coincide base (itemsUntil item closing n) (itemsUntil item' closing n) := by
  induction n with
  | zero => exact throw_coincide _
  | succ n ih =>
    refine skipNewlines_coincide (peek_coincide fun t => ?_)
    split_ifs
    · exact discard_next_coincide (pure_coincide [])
    · refine h.bind fun first => skipNewlines_coincide (next_coincide fun found _ => ?_)
      dsimp only
      split_ifs
      · exact (ih.mono (List.tail_suffix base)).bind fun as => pure_coincide (first :: as)
      · exact pure_coincide [first]
      · exact throw_coincide _

theorem commaList_coincide {item item' : Parser α} (h : Coincide base item item')
    (closing : Token) : Coincide base (commaList item closing) (commaList item' closing) :=
  get_coincide fun us => itemsUntil_coincide h closing (us.length + 1)

end Parser

namespace Grammar

open Scriptlet.Parser Scriptlet.Phrase

variable {base : Tokens}

theorem operator_coincide {α : Type} (operator? : Token → Option α) :
    Coincide base (operator operator?) (operator operator?) := by
  refine .of_suffix fun ts r rest h => ?_
  have hop := operator_eq_ok h
  cases r with
  | none => exact hop ▸ List.suffix_rfl
  | some op =>
    obtain ⟨t, p, nl, -, -, rfl⟩ := hop
    exact (List.suffix_append nl rest).trans (List.suffix_cons _ _)

theorem elseWord_coincide : Coincide base elseWord elseWord := by
  refine .of_suffix fun ts found rest h => ?_
  rcases elseWord_eq_ok h with ⟨-, rfl⟩ | ⟨-, nl, p, -, rfl⟩
  · exact List.suffix_rfl
  · exact (List.suffix_cons _ rest).trans (List.suffix_append nl _)

theorem parameter_coincide : Coincide base parameter parameter :=
  .of_suffix fun _ _ _ h => parameter_sound.suffix h

theorem sign_coincide : Coincide base sign sign := by
  refine .of_suffix fun ts r rest h => ?_
  have hsign := sign_eq_ok h
  cases r with
  | none => exact hsign ▸ List.suffix_rfl
  | some r =>
    obtain ⟨t, -, rfl⟩ := hsign
    exact List.suffix_cons _ _

section Constructs

variable {expr expr' : Parser Node} (h : Coincide base expr expr')

include h

theorem operand_coincide {α : Type} (operator? : Token → Option α) :
    Coincide base (operand operator? expr) (operand operator? expr') := by
  refine (operator_coincide operator?).bind fun r => ?_
  cases r with
  | none => exact pure_coincide none
  | some op => exact h.bind fun n => pure_coincide (some (op, n))

theorem chain_coincide {α : Type} (operator? : Token → Option α)
    (make : Node → List (α × Node) → NodeKind) :
    Coincide base (chain operator? make expr) (chain operator? make expr') := by
  refine h.bind fun first => (many_coincide (operand_coincide h operator?)).bind fun rest => ?_
  cases rest with
  | nil => exact pure_coincide first
  | cons o os => exact pure_coincide _

theorem statementsWithin_coincide (k : Nat) :
    Coincide base (statementsWithin expr k) (statementsWithin expr' k) := by
  induction k with
  | zero => exact throw_coincide _
  | succ k ih =>
    refine modify_coincide (fun _ => List.dropWhile_suffix _) (peek_coincide fun token => ?_)
    split_ifs
    · exact pure_coincide []
    · refine h.bind fun n => get_coincide fun us => ?_
      cases us with
      | nil => exact pure_coincide [n]
      | cons t us =>
        dsimp only
        split_ifs
        · exact ih.bind fun ns => pure_coincide (n :: ns)
        · exact throw_coincide _

theorem statements_coincide (p : Position) :
    Coincide base (statements expr p) (statements expr' p) :=
  get_coincide fun us => (statementsWithin_coincide h (us.length + 1)).bind fun _ =>
    pure_coincide _

theorem block_coincide : Coincide base (block expr) (block expr') :=
  (expect_coincide _ _).bind fun p => (statements_coincide h p).bind fun body =>
    (discard_coincide (expect_coincide _ _)).bind fun _ => pure_coincide body

theorem branch_coincide : Coincide base (branch expr) (branch expr') :=
  h.bind fun _ => (block_coincide h).bind fun _ => pure_coincide _

theorem whileLoop_coincide : Coincide base (whileLoop expr) (whileLoop expr') :=
  h.bind fun _ => (block_coincide h).bind fun _ => pure_coincide _

theorem alternatives_coincide (k : Nat) :
    Coincide base (alternatives expr k) (alternatives expr' k) := by
  induction k with
  | zero => exact pure_coincide _
  | succ k ih =>
    refine elseWord_coincide.bind fun found => ?_
    split_ifs
    · refine peek_coincide fun token => ?_
      split_ifs
      · refine discard_next_coincide (Coincide.mono ?_ (List.tail_suffix base))
        exact (branch_coincide h).bind fun _ => ih.bind fun _ => pure_coincide _
      · exact (block_coincide h).bind fun _ => pure_coincide _
    · exact pure_coincide _

theorem conditional_coincide : Coincide base (conditional expr) (conditional expr') :=
  (branch_coincide h).bind fun _ => get_coincide fun us =>
    (alternatives_coincide h us.length).bind fun _ => pure_coincide _

theorem function_coincide : Coincide base (function expr) (function expr') :=
  (discard_coincide (expect_coincide _ _)).bind fun _ =>
    (commaList_coincide parameter_coincide _).bind fun _ =>
      (block_coincide h).bind fun _ => pure_coincide _

theorem property_coincide : Coincide base (property expr) (property expr') :=
  identifier_coincide.bind fun _ => (discard_coincide (expect_coincide _ _)).bind fun _ =>
    skipNewlines_coincide (h.bind fun _ => pure_coincide _)

theorem enclosed_coincide (closing : Token) (expected : Expectation) :
    Coincide base (enclosed expr closing expected) (enclosed expr' closing expected) :=
  skipNewlines_coincide (h.bind fun inner => skipNewlines_coincide
    ((discard_coincide (expect_coincide _ _)).bind fun _ => pure_coincide inner))

theorem assigned_coincide : Coincide base (assigned expr) (assigned expr') :=
  skipNewlines_coincide h

end Constructs

section Levels

variable {expr expr' : Parser Node} {f g : TemplateReader}
  (h : Coincide base.tail expr expr')
  (hfg : ∀ ⦃raw p⦄, (.template raw, p) ∈ base → f raw p = g raw p)

include h

theorem suffix_coincide : Coincide base (suffix expr) (suffix expr') := by
  intro ts hts
  rcases suffix_cases ts with ⟨p, rest, rfl⟩ | ⟨p, rest, rfl⟩ | ⟨p, rest, rfl⟩ | hnone
  · exact ((commaList_coincide h .rightParen).bind
      fun items => pure_coincide (some (Suffix.mk (.arguments items) p))).past hts List.suffix_rfl
  · exact ((enclosed_coincide h .rightBracket .closingBracket).bind
      fun place => pure_coincide (some (Suffix.mk (.index place) p))).past hts List.suffix_rfl
  · exact (identifier_coincide.bind
      fun name => pure_coincide (some (Suffix.mk (.property name) p))).past hts List.suffix_rfl
  · rw [hnone, hnone]
    exact pure_coincide none hts

include hfg

theorem primary_coincide : Coincide base (primary expr f) (primary expr' g) := by
  refine next_coincide fun t ht => ?_
  obtain ⟨t, p⟩ := t
  cases t with
  | template raw => exact lift_coincide (hfg ht)
  | leftParen => exact enclosed_coincide h .rightParen .closingParen
  | kwWhile => exact (whileLoop_coincide h).bind fun _ => pure_coincide _
  | kwIf => exact (conditional_coincide h).bind fun _ => pure_coincide _
  | kwFn => exact (function_coincide h).bind fun _ => pure_coincide _
  | leftBrace =>
    exact (commaList_coincide (property_coincide h) .rightBrace).bind fun _ => pure_coincide _
  | leftBracket => exact (commaList_coincide h .rightBracket).bind fun _ => pure_coincide _
  | number | kwTrue | kwFalse | kwUndefined | identifier | plain => exact pure_coincide _
  | _ => exact throw_coincide _

theorem call_coincide : Coincide base (call expr f) (call expr' g) := by
  refine (primary_coincide h hfg).bind fun callee => (many_coincide (suffix_coincide h)).bind
    fun suffixes => ?_
  cases suffixes with
  | nil => exact pure_coincide callee
  | cons s ss => exact pure_coincide _

theorem multiplicative_coincide : Coincide base (multiplicative expr f) (multiplicative expr' g) :=
  chain_coincide (call_coincide h hfg) multiplicativeOperator? .arithmetic

theorem unary_coincide : Coincide base (unary expr f) (unary expr' g) :=
  (many_coincide sign_coincide).bind fun _ =>
    (multiplicative_coincide h hfg).bind fun _ => pure_coincide _

theorem additive_coincide : Coincide base (additive expr f) (additive expr' g) :=
  chain_coincide (unary_coincide h hfg) additiveOperator? .arithmetic

theorem comparison_coincide : Coincide base (comparison expr f) (comparison expr' g) := by
  have hside := additive_coincide h hfg
  refine hside.bind fun left => (operand_coincide hside comparisonOperator?).bind fun r => ?_
  cases r with
  | none => exact pure_coincide left
  | some o => exact pure_coincide _

theorem conjunction_coincide : Coincide base (conjunction expr f) (conjunction expr' g) :=
  chain_coincide (comparison_coincide h hfg) (only? .andAnd) (listed .conjunction)

theorem disjunction_coincide : Coincide base (disjunction expr f) (disjunction expr' g) :=
  chain_coincide (conjunction_coincide h hfg) (only? .orOr) (listed .disjunction)

theorem unnamed_coincide : Coincide base (unnamed expr f) (unnamed expr' g) := by
  refine (disjunction_coincide h hfg).bind fun left => peek_coincide fun t => ?_
  split_ifs
  · exact (lift_coincide rfl).bind fun r => discard_next_coincide
      ((assigned_coincide h).bind fun _ => pure_coincide _)
  · exact pure_coincide left

/-- A reader of expressions asks about nested expressions that begin after its first token, and
about templates among its tokens. -/
theorem level_coincide : Coincide base (level expr f) (level expr' g) := by
  intro ts hts
  rcases level_cases ts with ⟨p, rest, rfl⟩ | ⟨name, p, q, rest, rfl⟩ | hother
  · exact (identifier_coincide.bind fun name =>
      (discard_coincide (expect_coincide .equals .initialValue)).bind fun _ =>
        (assigned_coincide h).bind fun value =>
          pure_coincide (Node.mk (.assignment true name value) p)).past hts List.suffix_rfl
  · exact ((assigned_coincide h).bind fun value =>
      pure_coincide (Node.mk (.assignment false name value) p)).past hts (List.suffix_cons _ rest)
  · rw [hother, hother]
    exact unnamed_coincide h hfg hts

end Levels

end Grammar
end Scriptlet
