import Scriptlet.Proofs.Syntax.Embedded
import Scriptlet.Proofs.Syntax.Nesting
/-!
# The parser ends and makes progress

Readers of expressions and of templates call each other: an expression holds templates, and a
template holds code, which is cut into tokens and read as an expression again. The number of tokens
does not fall on the way, but the text that they take up does (`Goal.size`): it bounds how deep the
calls go. Main statement: the recursion of the readers ends with what the bounded readers give, on
every list of tokens, and so do the loops in them; what a reader leaves is an end of its tokens, and
a shorter one if it gives an expression (`Grammar.readers_end`).
-/
namespace Scriptlet

open Phrase

/-! ## The text that tokens take up -/

def Token.size : Token → Nat
  | .template raw => raw.length + 2
  | _ => 1

theorem Token.size_pos (t : Token) : 0 < t.size := by
  cases t <;> simp [size]

theorem Token.size_le_length {t : Token} (h : t.spelling ≠ []) : t.size ≤ t.spelling.length := by
  have hpos := List.length_pos_iff.2 h
  cases t with
  | template raw => simp [size, spelling, ← String.length_toList]
  | _ => exact hpos

def Tokens.size (ts : Tokens) : Nat :=
  (ts.map (·.1.size)).sum

namespace Tokens

variable {ts us : Tokens}

@[simp]
theorem size_cons (t : Token × Position) (ts : Tokens) : size (t :: ts) = t.1.size + size ts := by
  simp [size]

@[simp]
theorem size_append (ts us : Tokens) : size (ts ++ us) = size ts + size us := by
  simp [size]

theorem size_le_of_suffix (h : ts <:+ us) : size ts ≤ size us := by
  obtain ⟨before, rfl⟩ := h
  simp

theorem size_lt_of_suffix {t : Token × Position} (h : ts <:+ us) : size ts < size (t :: us) := by
  have hle := size_le_of_suffix h
  have hpos := t.1.size_pos
  rw [size_cons]
  omega

theorem size_of_mem {raw : String} {p : Position} (h : (.template raw, p) ∈ ts) :
    raw.length + 2 ≤ size ts := by
  obtain ⟨before, after, rfl⟩ := List.append_of_mem h
  simp only [size_append, size_cons, Token.size]
  omega

end Tokens

namespace Token

theorem Scanned.size_le {cs : List Char} {p : Position} {ts : Tokens} (h : Scanned cs p ts) :
    ts.size ≤ cs.length := by
  induction h with
  | done => exact Nat.le_refl 0
  | @token c cs p t ts ht _ ih =>
    have hcovers := congrArg List.length (Lexeme.first_covers c cs)
    have hne := Lexeme.first_text_ne_nil c cs
    rw [Lexeme.first_text ht] at hcovers hne
    have hle := size_le_length hne
    rw [List.length_append] at hcovers
    rw [Tokens.size_cons]
    dsimp only
    omega
  | @skipped c cs _ _ _ _ ih =>
    have := length_first_rest_lt c cs
    omega

def scanRound (self : List Char × Position → Except SyntaxError Tokens) :
    List Char × Position → Except SyntaxError Tokens
  | ([], _) => .ok []
  | (c :: cs, p) =>
    let found := Lexeme.first c cs
    match found.lexeme with
    | .token t => (self (found.rest, p.after found.text)).map ((t, p) :: ·)
    | .skipped => self (found.rest, p.after found.text)
    | .unrecognized => .error ⟨.unrecognizedInput (String.ofList found.text), p⟩

theorem tokenize_ends : Recursion.Ends scanRound fun place => tokenize place.1 place.2 := by
  have hguarded : Recursion.Guarded (fun place => place.1.length) scanRound := by
    rintro f g ⟨_ | ⟨c, cs⟩, p⟩ hfg
    · rfl
    · have hrest := hfg ((Lexeme.first c cs).rest, p.after (Lexeme.first c cs).text)
        (length_first_rest_lt c cs)
      simp only [scanRound, hrest]
  refine (hguarded.founded_of_zero (fun n place => scan n place.1 place.2) ?_ ?_).ends
  · intro n
    funext ⟨cs, p⟩
    cases cs <;> rfl
  · rintro ⟨cs, p⟩ hcs
    obtain rfl : cs = [] := List.length_eq_zero_iff.1 hcs
    rfl

end Token

/-! ## The recursion of the readers -/

namespace Template

open Scriptlet.Parser

def codeNode (expr : Parser Node) (source : List Char) (p : Position) : Except SyntaxError Node :=
  Except.mapError (·.endingAt (p.after source)) do
    let tokens ← Token.tokenize source p
    let (node, rest) ← expr (dropNewlines tokens)
    Tokens.checkEnd (dropNewlines rest)
    return node

def pieceNode (expr : Parser Node) : Segment × Position → Except SyntaxError Node
  | (.text content, p) => .ok ⟨.text (String.ofList content), p⟩
  | (.code source, p) => codeNode expr source p
  | (.unterminated, p) => .error ⟨.unterminatedInterpolation, p⟩

def reading (expr : Parser Node) (raw : String) (p : Position) : Except SyntaxError Node :=
  ((segments raw.toList (p.advance '"')).mapM (pieceNode expr)).map (⟨.template ·, p⟩)

end Template

namespace Grammar

open Scriptlet.Parser

variable {α : Type}

/-- What the two readers that call each other are asked for. -/
inductive Goal where
  /-- The expression at the front of the tokens. -/
  | expression (tokens : Tokens)
  /-- The template with the given raw text, whose opening quote stands at `p`. -/
  | template (raw : String) (p : Position)

abbrev Goal.Result : Goal → Type
  | .expression _ => Except SyntaxError (Node × Tokens)
  | .template _ _ => Except SyntaxError Node

/-- The text that a goal is about. A template is shorter than its token, which has quotes, and has
room for the tokens of its code. -/
def Goal.size : Goal → Nat
  | .expression tokens => tokens.size
  | .template raw _ => raw.length + 1

abbrev Readers := ∀ goal : Goal, goal.Result

def Readers.expr (readers : Readers) : Parser Node := fun ts => readers (.expression ts)

def Readers.template (readers : Readers) : TemplateReader := fun raw p => readers (.template raw p)

/-- The recursion of the readers, without a bound. -/
def body (self : Readers) : Readers
  | .expression ts => level self.expr self.template ts
  | .template raw p => Template.reading self.expr raw p

/-- The reader of expressions, with a bound that is above the number of its tokens. -/
def nested : Parser Node := do
  expression Template.parse ((← get).length + 1)

def bounded : Readers
  | .expression ts => nested ts
  | .template raw p => Template.parse raw p

theorem closed_opens :
    Closed (fun ts _ => Opens opensExpression ts) fun _ _ _ => True where
  opens _ _ h := h
  assignment _ _ _ _ _ _ _ _ := ⟨_, _, _, rfl, rfl⟩
  declaration _ _ _ _ _ _ _ _ _ := ⟨_, _, _, rfl, rfl⟩
  propertyAssignment _ _ _ _ _ _ _ _ hleft _ _ _ :=
    (hleft.opens.mono opensExpression_of_opensOperand).append _
  disjunction _ _ h := h.opens.mono opensExpression_of_opensOperand
  template _ _ _ _ := trivial

theorem expression_opens (f : TemplateReader) (k : Nat) :
    Sound (expression f k) fun ts _ => Opens opensExpression ts :=
  expression_sound closed_opens (fun _ _ _ _ => trivial) k

theorem nested_opens : Sound nested fun ts _ => Opens opensExpression ts :=
  fun ts _ _ h => expression_opens Template.parse (ts.length + 1) h

theorem parse_leaf ⦃raw : String⦄ ⦃p : Position⦄ ⦃n : Node⦄ (_ : Template.parse raw p = .ok n) :
    True :=
  trivial

theorem level_nil (expr : Parser Node) (f : TemplateReader) : level expr f [] = .error .atEnd :=
  rfl

/-- A bound above the number of the tokens makes no difference. -/
theorem expression_eq {f : TemplateReader} {m n : Nat} {ts : Tokens} (hm : ts.length < m)
    (hn : ts.length < n) : expression f m ts = expression f n ts := by
  induction m generalizing n ts with
  | zero => omega
  | succ m ih =>
    obtain ⟨n, rfl⟩ := Nat.exists_eq_add_of_le' (show 1 ≤ n by omega)
    cases ts with
    | nil => exact (level_nil (expression f m) f).trans (level_nil (expression f n) f).symm
    | cons t ts =>
      rw [List.length_cons] at hm hn
      have hrest : Coincide (t :: ts).tail (expression f m) (expression f n) := by
        intro us hus
        have hless : us.length ≤ ts.length := hus.length_le
        exact ⟨ih (by omega) (by omega), fun _ _ h => (expression_opens f m).suffix h⟩
      exact (level_coincide hrest (fun _ _ _ => rfl) List.suffix_rfl).1

theorem expression_eq_nested {k : Nat} {ts : Tokens} (hk : ts.length < k) :
    expression Template.parse k ts = nested ts :=
  expression_eq hk (Nat.lt_succ_self _)

theorem nested_coincide {expr : Parser Node} {base : Tokens}
    (h : ∀ ts, ts <:+ base → expr ts = nested ts) : Coincide base nested expr :=
  fun ts hts => ⟨(h ts hts).symm, fun _ _ hn => nested_opens.suffix hn⟩

theorem codeNode_eq {expr : Parser Node} {source : List Char} {p : Position}
    (h : ∀ ts : Tokens, ts.size ≤ source.length → expr ts = nested ts) :
    Template.codeNode expr source p = Template.embedded Template.parse source p := by
  rw [Template.codeNode, Template.embedded]
  cases htokens : Token.tokenize source p with
  | error e => rfl
  | ok tokens =>
    have hsize := (Token.tokenize_eq_ok.1 htokens).size_le
    have hdrop : dropNewlines tokens <:+ tokens := List.dropWhile_suffix _
    have hshort := (Tokens.size_le_of_suffix hdrop).trans hsize
    have hbound : (dropNewlines tokens).length < tokens.length + 1 := by
      have := hdrop.length_le
      omega
    have heq : expr (dropNewlines tokens) =
        expression Template.parse (tokens.length + 1) (dropNewlines tokens) := by
      rw [h _ hshort, expression_eq_nested hbound]
    simp only [bind, Except.bind, heq]

theorem reading_eq {expr : Parser Node} {raw : String} {p : Position}
    (h : ∀ ts : Tokens, ts.size ≤ raw.length → expr ts = nested ts) :
    Template.reading expr raw p = Template.parse raw p := by
  rw [Template.reading, Template.parse_eq]
  congr 1
  apply mapM_congr
  rintro ⟨segment, q⟩ hmem
  cases segment with
  | text content => rfl
  | unterminated => rfl
  | code source =>
    have hlength := Template.segments_code_length hmem
    rw [String.length_toList] at hlength
    exact codeNode_eq fun ts hts => h ts (hts.trans hlength)

/-- What the bounded readers give follows from what they give about less text. -/
theorem bounded_founded : Recursion.Founded Goal.size body bounded := by
  intro (self : Readers) goal hself
  cases goal with
  | expression ts =>
    cases ts with
    | nil => exact level_nil self.expr self.template
    | cons t ts =>
      have hexpr : Coincide (t :: ts).tail (expression Template.parse (ts.length + 1))
          self.expr := by
        intro us hus
        have hless : us.length < ts.length + 1 := Nat.lt_succ_of_le hus.length_le
        refine ⟨?_, fun _ _ h => (expression_opens _ _).suffix h⟩
        rw [expression_eq_nested hless]
        exact (hself (.expression us) (Tokens.size_lt_of_suffix hus)).symm
      have htemplate ⦃raw : String⦄ ⦃p : Position⦄ (hmem : (.template raw, p) ∈ t :: ts) :
          Template.parse raw p = self.template raw p :=
        (hself (.template raw p) (Tokens.size_of_mem hmem)).symm
      exact (level_coincide hexpr htemplate List.suffix_rfl).1.symm
  | template raw p =>
    exact reading_eq fun ts hts => hself (.expression ts) (Nat.lt_succ_of_le hts)

/-! ## Every reader ends -/

/-- A reader that is made from a reader of nested expressions and a reader of templates ends, with
what it gives for the bounded ones: finitely many unfoldings of their recursion give it, whatever
stands below them, and so does every bound above the number of the tokens. What is left is an end of
the tokens. -/
structure Ends (m : Parser Node → TemplateReader → Parser α) (ts : Tokens) : Prop where
  unfolded : ∃ n, ∀ bottom : Readers,
    m (Readers.expr (body^[n] bottom)) (Readers.template (body^[n] bottom)) ts =
      m nested Template.parse ts
  bound : ∀ k, ts.length < k →
    m (expression Template.parse k) Template.parse ts = m nested Template.parse ts
  suffix : ∀ a rest, m nested Template.parse ts = .ok (a, rest) → rest <:+ ts

/-- A reader that ends, and takes at least one token if it gives something. -/
structure Advances (m : Parser Node → TemplateReader → Parser α) (ts : Tokens) : Prop
    extends Ends m ts where
  shorter : ∀ a rest, m nested Template.parse ts = .ok (a, rest) → rest.length < ts.length

/-- A reader that is made from two others asks them about ends of its tokens and about templates
among its tokens. -/
def Local (m : Parser Node → TemplateReader → Parser α) : Prop :=
  ∀ ⦃base expr expr' f g⦄, Coincide base expr expr' →
    (∀ ⦃raw p⦄, (.template raw, p) ∈ base → f raw p = g raw p) →
    Coincide base (m expr f) (m expr' g)

theorem Local.ends {m : Parser Node → TemplateReader → Parser α} (h : Local m) (ts : Tokens) :
    Ends m ts where
  unfolded := by
    refine ⟨ts.size + 1, fun bottom => ?_⟩
    have hexpr : Coincide ts nested (Readers.expr (body^[ts.size + 1] bottom)) :=
      nested_coincide fun us hus => bounded_founded.iterate_eq bottom
        (i := .expression us) (Nat.lt_succ_of_le (Tokens.size_le_of_suffix hus))
    have htemplate ⦃raw : String⦄ ⦃p : Position⦄ (hmem : (.template raw, p) ∈ ts) :
        Template.parse raw p = Readers.template (body^[ts.size + 1] bottom) raw p := by
      have hsize := Tokens.size_of_mem hmem
      exact (bounded_founded.iterate_eq bottom (i := .template raw p)
        (show raw.length + 1 < ts.size + 1 by omega)).symm
    exact (h hexpr htemplate List.suffix_rfl).1.symm
  bound k hk := by
    have hexpr : Coincide ts nested (expression Template.parse k) :=
      nested_coincide fun us hus => expression_eq_nested (hus.length_le.trans_lt hk)
    exact (h hexpr (fun _ _ _ => rfl) List.suffix_rfl).1.symm
  suffix a rest hread := by
    have hexpr : Coincide ts nested nested := nested_coincide fun _ _ => rfl
    exact (h hexpr (fun _ _ _ => rfl) List.suffix_rfl).2 hread

theorem Local.advances {m : Parser Node → TemplateReader → Parser α} (h : Local m)
    {phrase : Tokens → α → Prop} (hsound : Sound (m nested Template.parse) phrase)
    (hne : ∀ ⦃ts a⦄, phrase ts a → ts ≠ []) (ts : Tokens) : Advances m ts where
  toEnds := h.ends ts
  shorter _ _ hread := hsound.length_lt hne hread

/-! ## Assignments to names -/

def assignment? (expr : Parser Node) : Parser (Option Node) := do
  match ← get with
  | (.kwMut, p) :: rest =>
    set rest
    let name ← identifier
    discard (expect .equals .initialValue)
    return some ⟨.assignment true name (← assigned expr), p⟩
  | (.identifier name, p) :: (.equals, _) :: rest =>
    set rest
    return some ⟨.assignment false name (← assigned expr), p⟩
  | _ => return none

theorem level_eq (expr : Parser Node) (template : TemplateReader) :
    level expr template = (do
      match ← assignment? expr with
      | some node => return node
      | none => unnamed expr template) := by
  unfold level assignment?
  rw [bind_assoc]
  congr 1
  funext ts
  split <;> simp

theorem assignment?_cases (ts : Tokens) :
    (∃ p rest, ts = (.kwMut, p) :: rest) ∨
      (∃ name p q rest, ts = (.identifier name, p) :: (.equals, q) :: rest) ∨
      ∀ expr, assignment? expr ts = .ok (none, ts) := by
  by_cases hmut : ∃ p rest, ts = (.kwMut, p) :: rest
  · exact .inl hmut
  by_cases hname : ∃ name p q rest, ts = (.identifier name, p) :: (.equals, q) :: rest
  · exact .inr (.inl hname)
  · refine .inr (.inr fun expr => ?_)
    rw [assignment?, get_bind]
    split
    · exact absurd ⟨_, _, rfl⟩ hmut
    · exact absurd ⟨_, _, _, _, rfl⟩ hname
    · rfl

theorem assignment?_coincide {expr expr' : Parser Node} {base : Tokens}
    (h : Coincide base.tail expr expr') :
    Coincide base (assignment? expr) (assignment? expr') := by
  intro ts hts
  rcases assignment?_cases ts with ⟨p, rest, rfl⟩ | ⟨name, p, q, rest, rfl⟩ | hnone
  · exact (identifier_coincide.bind fun name =>
      (discard_coincide (expect_coincide .equals .initialValue)).bind fun _ =>
        (assigned_coincide h).bind fun value =>
          pure_coincide (some (Node.mk (.assignment true name value) p))).past hts List.suffix_rfl
  · exact ((assigned_coincide h).bind fun value =>
      pure_coincide (some (Node.mk (.assignment false name value) p))).past hts
        (List.suffix_cons _ rest)
  · rw [hnone, hnone]
    exact pure_coincide none hts

theorem assignment?_sound {expr : Parser Node} {phrase : Tokens → Node → Prop}
    (h : Sound expr phrase) : SoundStep (assignment? expr) fun ts _ => ts ≠ [] := by
  intro ts r rest hm
  rcases assignment?_cases ts with ⟨p, more, rfl⟩ | ⟨name, p, q, more, rfl⟩ | hnone
  · rw [assignment?, get_bind] at hm
    dsimp only at hm
    rw [set_bind] at hm
    obtain ⟨name, mid, hi, hm⟩ := bind_eq_ok.1 hm
    obtain ⟨u, mid', hd, hm⟩ := bind_eq_ok.1 hm
    obtain ⟨value, mid'', ha, hm⟩ := bind_eq_ok.1 hm
    obtain ⟨rfl, rfl⟩ := pure_eq_ok.1 hm
    obtain ⟨q, rfl⟩ := identifier_eq_ok.1 hi
    obtain ⟨q', hequals⟩ := discard_eq_ok.1 hd
    obtain ⟨nl, used, -, -, hvalue⟩ := assigned_sound h ha
    rw [expect_eq_ok.1 hequals, hvalue]
    exact ⟨(.kwMut, p) :: (.identifier name, q) :: (.equals, q') :: (nl ++ used), by simp, by simp⟩
  · rw [assignment?, get_bind] at hm
    dsimp only at hm
    rw [set_bind] at hm
    obtain ⟨value, mid, ha, hm⟩ := bind_eq_ok.1 hm
    obtain ⟨rfl, rfl⟩ := pure_eq_ok.1 hm
    obtain ⟨nl, used, -, -, rfl⟩ := assigned_sound h ha
    exact ⟨(.identifier name, p) :: (.equals, q) :: (nl ++ used), by simp, by simp⟩
  · rw [hnone] at hm
    cases hm
    rfl

/-- A reader that may decline: it leaves the tokens as they are if it gives nothing, and takes at
least one of them if it gives something. -/
def Tries (m : Parser (Option α)) (ts : Tokens) : Prop :=
  match m ts with
  | .ok (none, rest) => rest = ts
  | .ok (some _, rest) => rest.length < ts.length
  | .error _ => True

theorem tries_of_sound {m : Parser (Option α)} {phrase : Tokens → α → Prop}
    (h : SoundStep m phrase) (hne : ∀ ⦃ts a⦄, phrase ts a → ts ≠ []) (ts : Tokens) :
    Tries m ts := by
  rw [Tries]
  split
  · next heq => exact (h heq).symm
  · next heq => exact h.length_lt hne heq
  · trivial

/-! ## The whole parser -/

/-- The loops of the grammar end with what the bounded ones give. -/
structure LoopsEnd (expr : Parser Node) (template : TemplateReader) : Prop where
  statements : Parser.Ends (statementsRound expr) (statementList expr)
  branches : Parser.Ends (alternativesRound expr) (furtherBranches expr)
  items : ∀ closing, Parser.Ends (itemsRound expr closing) (commaList expr closing)
  properties : ∀ closing,
    Parser.Ends (itemsRound (property expr) closing) (commaList (property expr) closing)
  parameters : ∀ closing, Parser.Ends (itemsRound parameter closing) (commaList parameter closing)
  suffixes : Parser.Ends (manyRound (suffix expr)) (many (suffix expr))
  signs : Parser.Ends (manyRound sign) (many sign)
  factors :
    let factor := operand multiplicativeOperator? (call expr template)
    Parser.Ends (manyRound factor) (many factor)
  summands :
    let summand := operand additiveOperator? (unary expr template)
    Parser.Ends (manyRound summand) (many summand)
  conjuncts :
    let conjunct := operand (only? .andAnd) (comparison expr template)
    Parser.Ends (manyRound conjunct) (many conjunct)
  disjuncts :
    let disjunct := operand (only? .orOr) (conjunction expr template)
    Parser.Ends (manyRound disjunct) (many disjunct)

section Levels

variable {expr : Parser Node} {phrase : Tokens → Node → Prop} (h : Sound expr phrase)
  (hopens : ∀ ⦃ts n⦄, phrase ts n → Opens opensExpression ts) (template : TemplateReader)

theorem operands_end {operator? : Token → Option α} {side : Parser Node}
    {sidePhrase : Tokens → Node → Prop} (hside : Sound side sidePhrase) :
    Parser.Ends (manyRound (operand operator? side)) (many (operand operator? side)) := by
  refine many_ends (operand_sound operator? hside) (fun ts o ho => ?_) rfl
  obtain ⟨t, p, us, rfl, -⟩ := ho.head
  exact List.cons_ne_nil _ us

include h hopens

theorem conjunction_sound : Sound (conjunction expr template)
    (Conjunction phrase fun _ _ _ => True) :=
  (chain_sound (only? .andAnd) (listed .conjunction)
    (comparison_sound h hopens fun _ _ _ _ => trivial)).mono fun _ _ => .mk

theorem loops_end : LoopsEnd expr template where
  statements := statementList_ends h hopens
  branches := alternatives_ends h hopens
  items := commaList_ends h
  properties := commaList_ends (property_sound h)
  parameters := commaList_ends parameter_sound
  suffixes := by
    refine many_ends (suffix_sound h) (fun ts s hs => ?_) rfl
    obtain ⟨t, p, us, rfl, -⟩ := hs.head
    exact List.cons_ne_nil _ us
  signs := by
    have hsign : SoundStep sign IsSign := by
      intro ts r rest hm
      have hstep := sign_eq_ok hm
      cases r with
      | none => exact hstep
      | some r =>
        obtain ⟨t, ht, rfl⟩ := hstep
        exact ⟨[(t, r.2)], rfl, t, ht, rfl⟩
    refine many_ends hsign (fun ts s hs => ?_) rfl
    obtain ⟨t, -, rfl⟩ := hs
    exact List.cons_ne_nil _ []
  factors := operands_end (call_sound h hopens fun _ _ _ _ => trivial)
  summands := operands_end (unary_sound h hopens fun _ _ _ _ => trivial)
  conjuncts := operands_end (comparison_sound h hopens fun _ _ _ _ => trivial)
  disjuncts := operands_end (conjunction_sound h hopens template)

end Levels

theorem level_nested : level nested Template.parse = nested := by
  funext ts
  have hbody : body bounded (.expression ts) = bounded (.expression ts) :=
    bounded_founded fun _ _ => rfl
  exact hbody

/-- What a level asks of expressions that begin after its first token, it asks of ends of its
tokens. -/
theorem Local.of_tail {m : Parser Node → TemplateReader → Parser α}
    (h : ∀ ⦃base expr expr' f g⦄, Coincide base.tail expr expr' →
      (∀ ⦃raw p⦄, (.template raw, p) ∈ base → f raw p = g raw p) →
      Coincide base (m expr f) (m expr' g)) : Local m :=
  fun base _ _ _ _ hexpr => h (hexpr.mono (List.tail_suffix base))

theorem Block.ne_nil {expr : Tokens → Node → Prop} ⦃ts : Tokens⦄ ⦃n : Node⦄
    (h : Block expr ts n) : ts ≠ [] := by
  cases h
  exact List.cons_ne_nil _ _

theorem Items.ne_nil {item : Tokens → α → Prop} {closing : Token} ⦃ts : Tokens⦄ ⦃as : List α⦄
    (h : Items item closing ts as) : ts ≠ [] := by
  cases h <;> simp

section Advances

variable (ts : Tokens) (closing : Token)

theorem level_advances : Advances level ts := by
  have hsound : Sound (level nested Template.parse) fun ts _ => Opens opensExpression ts := by
    rw [level_nested]
    exact nested_opens
  exact (Local.of_tail fun _ _ _ _ _ => level_coincide).advances hsound (fun _ _ => Opens.ne_nil) ts

theorem disjunction_advances : Advances disjunction ts :=
  (Local.of_tail fun _ _ _ _ _ => disjunction_coincide).advances
    (disjunction_sound nested_opens (fun _ _ h => h) parse_leaf) (fun _ _ h => h.opens.ne_nil) ts

theorem conjunction_advances : Advances conjunction ts :=
  (Local.of_tail fun _ _ _ _ _ => conjunction_coincide).advances
    (conjunction_sound nested_opens (fun _ _ h => h) _) (fun _ _ h => h.opens.ne_nil) ts

theorem comparison_advances : Advances comparison ts :=
  (Local.of_tail fun _ _ _ _ _ => comparison_coincide).advances
    (comparison_sound nested_opens (fun _ _ h => h) parse_leaf)
    (fun _ _ h => (h.opens fun _ _ => Additive.opens).ne_nil) ts

theorem additive_advances : Advances additive ts :=
  (Local.of_tail fun _ _ _ _ _ => additive_coincide).advances
    (additive_sound nested_opens (fun _ _ h => h) parse_leaf) (fun _ _ h => h.opens.ne_nil) ts

theorem unary_advances : Advances unary ts :=
  (Local.of_tail fun _ _ _ _ _ => unary_coincide).advances
    (unary_sound nested_opens (fun _ _ h => h) parse_leaf)
    (fun _ _ h => (h.opens fun _ _ => Multiplicative.opens).ne_nil) ts

theorem multiplicative_advances : Advances multiplicative ts :=
  (Local.of_tail fun _ _ _ _ _ => multiplicative_coincide).advances
    (multiplicative_sound nested_opens (fun _ _ h => h) parse_leaf)
    (fun _ _ h => h.opens.ne_nil) ts

theorem call_advances : Advances call ts :=
  (Local.of_tail fun _ _ _ _ _ => call_coincide).advances
    (call_sound nested_opens (fun _ _ h => h) parse_leaf) (fun _ _ h => h.opens.ne_nil) ts

theorem primary_advances : Advances primary ts :=
  (Local.of_tail fun _ _ _ _ _ => primary_coincide).advances
    (primary_sound nested_opens (fun _ _ h => h) parse_leaf) (fun _ _ h => h.opens.ne_nil) ts

theorem block_advances : Advances (fun expr _ => block expr) ts :=
  Local.advances (fun _ _ _ _ _ h _ => block_coincide h)
    (block_sound nested_opens fun _ _ h => h) Block.ne_nil ts

theorem items_advance : Advances (fun expr _ => commaList expr closing) ts :=
  Local.advances (fun _ _ _ _ _ h _ => commaList_coincide h closing)
    (commaList_sound closing nested_opens) Items.ne_nil ts

theorem properties_advance : Advances (fun expr _ => commaList (property expr) closing) ts :=
  Local.advances (fun _ _ _ _ _ h _ => commaList_coincide (property_coincide h) closing)
    (commaList_sound closing (property_sound nested_opens)) Items.ne_nil ts

theorem parameters_advance : Advances (fun _ _ => commaList parameter closing) ts :=
  Local.advances (fun _ _ _ _ _ _ _ => commaList_coincide parameter_coincide closing)
    (commaList_sound closing parameter_sound) Items.ne_nil ts

end Advances

theorem embedded_ends (source : List Char) (p : Position) : ∃ n, ∀ bottom : Readers,
    Template.codeNode (Readers.expr (body^[n] bottom)) source p =
      Template.embedded Template.parse source p := by
  refine ⟨source.length + 1, fun bottom => codeNode_eq fun ts hts => ?_⟩
  exact bounded_founded.iterate_eq bottom (i := .expression ts) (Nat.lt_succ_of_le hts)

/-- The recursion of the readers of expressions and of templates ends with what the bounded readers
give, and so do the cutting of code into tokens, the loops, and the reading of embedded code. On
every list of tokens each reader ends; what it leaves is an end of the tokens. It is shorter if the
reader gives an expression, a block or a list with its closing sign. An expression is an assignment
to a name or one without, and if there is no such assignment, no token is taken to find out. -/
theorem readers_end :
    Recursion.Ends body bounded ∧
    Recursion.Ends Token.scanRound (fun place => Token.tokenize place.1 place.2) ∧
    LoopsEnd nested Template.parse ∧
    (∀ source p, ∃ n, ∀ bottom : Readers,
      Template.codeNode (Readers.expr (body^[n] bottom)) source p =
        Template.embedded Template.parse source p) ∧
    (∀ expr template, level expr template = (do
      match ← assignment? expr with
      | some node => return node
      | none => unnamed expr template)) ∧
    ∀ ts : Tokens,
      (∀ p, Ends (fun expr _ => statements expr p) ts) ∧
      Advances (fun expr _ => block expr) ts ∧
      Advances level ts ∧
      (Ends (fun expr _ => assignment? expr) ts ∧ Tries (assignment? nested) ts) ∧
      (Advances disjunction ts ∧ Advances conjunction ts ∧ Advances comparison ts ∧
        Advances additive ts ∧ Advances multiplicative ts ∧ Advances unary ts ∧
        Advances call ts ∧ Advances primary ts) ∧
      ∀ closing, Advances (fun expr _ => commaList expr closing) ts ∧
        Advances (fun expr _ => commaList (property expr) closing) ts ∧
        Advances (fun _ _ => commaList parameter closing) ts := by
  refine ⟨bounded_founded.ends, Token.tokenize_ends, loops_end nested_opens (fun _ _ h => h) _,
    embedded_ends, level_eq, fun ts => ?_⟩
  have hstatements (p : Position) : Ends (fun expr _ => statements expr p) ts :=
    Local.ends (fun _ _ _ _ _ h _ => statements_coincide h p) ts
  have hassignment : Ends (fun expr _ => assignment? expr) ts :=
    (Local.of_tail fun _ _ _ _ _ h _ => assignment?_coincide h).ends ts
  exact ⟨hstatements, block_advances ts, level_advances ts,
    ⟨hassignment, tries_of_sound (assignment?_sound nested_opens) (fun _ _ h => h) ts⟩,
    ⟨disjunction_advances ts, conjunction_advances ts, comparison_advances ts,
      additive_advances ts, multiplicative_advances ts, unary_advances ts, call_advances ts,
      primary_advances ts⟩,
    fun closing => ⟨items_advance ts closing, properties_advance ts closing,
      parameters_advance ts closing⟩⟩

end Grammar
end Scriptlet
