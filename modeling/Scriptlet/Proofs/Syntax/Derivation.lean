import Scriptlet.Proofs.Syntax.Complete
import Scriptlet.Proofs.Syntax.Scanning
import Scriptlet.Proofs.Syntax.Sound
/-!
# Programs and their derivations

The readers of templates and of whole programs accept exactly the phrases of the grammar. Templates
nest, and the reader is given a bound on how deep: the code inside a template is no longer than the
template, and the templates inside code are shorter than the code, so the bound is never reached.
Main statement: a list of tokens is a program exactly if it has a derivation, and then it has only
one tree.
-/
namespace Scriptlet

open Phrase

section Results

variable {ε ε' α β : Type}

theorem except_bind_eq_ok {x : Except ε α} {f : α → Except ε β} {b : β} :
    (x >>= f) = .ok b ↔ ∃ a, x = .ok a ∧ f a = .ok b := by
  cases x <;> simp [bind, Except.bind]

theorem mapError_eq_ok {f : ε → ε'} {x : Except ε α} {a : α} :
    x.mapError f = .ok a ↔ x = .ok a := by
  cases x <;> simp [Except.mapError]

theorem toOption_eq_some {x : Except ε α} {a : α} : x.toOption = some a ↔ x = .ok a := by
  cases x <;> simp [Except.toOption]

theorem mapM_eq_ok {f : α → Except ε β} {as : List α} {bs : List β} :
    as.mapM f = .ok bs ↔ List.Forall₂ (fun a b => f a = .ok b) as bs := by
  induction as generalizing bs with
  | nil => cases bs <;> simp [pure, Except.pure]
  | cons a as ih =>
    rw [List.mapM_cons, List.forall₂_cons_left_iff]
    cases ha : f a with
    | error e => simp [bind, Except.bind]
    | ok b =>
      cases has : as.mapM f with
      | error e => simp [bind, Except.bind, ← ih, has]
      | ok bs => simp [bind, Except.bind, pure, Except.pure, ← ih, has, eq_comm]

theorem mapM_congr {f g : α → Except ε β} {as : List α} (h : ∀ a ∈ as, f a = g a) :
    as.mapM f = as.mapM g := by
  induction as with
  | nil => rfl
  | cons a as ih =>
    rw [List.forall_mem_cons] at h
    rw [List.mapM_cons, List.mapM_cons, h.1, ih h.2]

theorem except_bind_eq_error {x : Except ε α} {f : α → Except ε β} {e : ε} :
    (x >>= f) = .error e ↔ x = .error e ∨ ∃ a, x = .ok a ∧ f a = .error e := by
  cases x <;> simp [bind, Except.bind]

theorem mapError_eq_error {f : ε → ε'} {x : Except ε α} {e : ε'} :
    x.mapError f = .error e ↔ ∃ e₀, x = .error e₀ ∧ e = f e₀ := by
  cases x <;> simp [Except.mapError, eq_comm]

theorem exists_of_mapM_eq_error {f : α → Except ε β} {as : List α} {e : ε}
    (h : as.mapM f = .error e) : ∃ a ∈ as, f a = .error e := by
  induction as with
  | nil => cases h
  | cons a as ih =>
    rw [List.mapM_cons, except_bind_eq_error] at h
    rcases h with ha | ⟨b, -, hrest⟩
    · exact ⟨a, List.mem_cons_self, ha⟩
    rcases except_bind_eq_error.1 hrest with has | ⟨bs, -, hpure⟩
    · obtain ⟨a', ha', herror⟩ := ih has
      exact ⟨a', List.mem_cons_of_mem _ ha', herror⟩
    · cases hpure

end Results

/-! ## Nested templates are shorter -/

theorem Stands.length_le {source text : List Char} {start p : Position}
    (h : Stands source start p text) : text.length ≤ source.length := by
  obtain ⟨before, after, rfl, -⟩ := h
  simp only [List.length_append]
  omega

theorem Token.tokenize_template_length {source : List Char} {p q : Position} {tokens : Tokens}
    {raw : String} (h : tokenize source p = .ok tokens)
    (hm : (Token.template raw, q) ∈ tokens) : raw.length < source.length := by
  have hle := ((tokenize_eq_ok.1 h).stands _ hm).length_le
  simp only [spelling, List.cons_append, List.length_cons, List.length_append, List.length_nil,
    String.length_toList] at hle
  omega

theorem Template.segments_code_length {raw source : List Char} {p q : Position}
    (hm : (Segment.code source, q) ∈ segments raw p) : source.length ≤ raw.length :=
  (segments_stand raw p _ hm).length_le

/-! ## Templates -/

theorem Tokens.checkEnd_eq_ok {ts : Tokens} {u : Unit} : ts.checkEnd = .ok u ↔ ts = [] := by
  cases ts <;> simp [Tokens.checkEnd]

namespace Template

open Scriptlet.Parser

theorem embedded_eq_ok {template : String → Position → Except SyntaxError Node}
    {source : List Char} {p : Position} {n : Node} :
    embedded template source p = .ok n ↔
      ∃ tokens rest, Token.tokenize source p = .ok tokens ∧
        Grammar.expression template (tokens.length + 1) (dropNewlines tokens) = .ok (n, rest) ∧
        dropNewlines rest = [] := by
  rw [embedded, mapError_eq_ok, except_bind_eq_ok]
  constructor
  · rintro ⟨tokens, ht, h⟩
    obtain ⟨⟨n', rest⟩, he, h⟩ := except_bind_eq_ok.1 h
    obtain ⟨u, hc, h⟩ := except_bind_eq_ok.1 h
    cases h
    exact ⟨tokens, rest, ht, he, Tokens.checkEnd_eq_ok.1 hc⟩
  · rintro ⟨tokens, rest, ht, he, hnil⟩
    refine ⟨tokens, ht, except_bind_eq_ok.2 ⟨_, he, except_bind_eq_ok.2 ⟨(), ?_, rfl⟩⟩⟩
    exact Tokens.checkEnd_eq_ok.2 hnil

theorem parseWithin_eq_ok {k : Nat} {raw : String} {p : Position} {n : Node} :
    parseWithin (k + 1) raw p = .ok n ↔
      ∃ parts, List.Forall₂ (fun s part => segmentNode (parseWithin k) s = .ok part)
        (segments raw.toList (p.advance '"')) parts ∧ n = ⟨.template parts, p⟩ := by
  rw [parseWithin, except_bind_eq_ok]
  constructor
  · rintro ⟨parts, hparts, h⟩
    cases h
    exact ⟨parts, mapM_eq_ok.1 hparts, rfl⟩
  · rintro ⟨parts, hparts, rfl⟩
    exact ⟨parts, mapM_eq_ok.2 hparts, rfl⟩

section Sound

variable {P : Tokens → Node → Prop} {Q : String → Position → Node → Prop}

theorem segmentNode_sound (hclosed : Closed P Q)
    {template : String → Position → Except SyntaxError Node}
    (hleaf : ∀ ⦃raw p n⦄, template raw p = .ok n → Q raw p n)
    {s : Segment × Position} {n : Node} (h : segmentNode template s = .ok n) :
    Phrase.Segment P s n := by
  obtain ⟨segment, p⟩ := s
  cases segment with
  | text content =>
    cases h
    exact .text
  | code source =>
    obtain ⟨tokens, rest, ht, he, hrest⟩ := embedded_eq_ok.1 h
    obtain ⟨nl, hnl, hfront⟩ := exists_newlines tokens
    obtain ⟨nl', hnl', hback⟩ := exists_newlines rest
    obtain ⟨used, hused, hn⟩ := Grammar.expression_sound hclosed hleaf _ he
    rw [hrest, List.append_nil] at hback
    rw [hfront, hused, hback] at ht
    exact .code ht hnl hn hnl'
  | unterminated => cases h

/-- Templates that are read have a derivation, however deep they may nest. -/
theorem parseWithin_sound (hclosed : Closed P Q) (k : Nat) ⦃raw : String⦄ ⦃p : Position⦄
    ⦃n : Node⦄ (h : parseWithin k raw p = .ok n) : Q raw p n := by
  induction k generalizing raw p n with
  | zero => cases h
  | succ k ih =>
    obtain ⟨parts, hparts, rfl⟩ := parseWithin_eq_ok.1 h
    exact hclosed.template (hparts.imp fun s part hs => segmentNode_sound hclosed ih hs)

end Sound

theorem segmentNode_complete {template : String → Position → Except SyntaxError Node}
    {good : String → Prop}
    (hleaf : ∀ ⦃raw p n⦄, Phrase.Template raw p n → good raw → template raw p = .ok n)
    {s : Segment × Position} {n : Node} (h : Phrase.Segment Expression s n)
    (hgood : ∀ source raw, s.1 = .code source → raw.length < source.length → good raw) :
    segmentNode template s = .ok n := by
  cases h with
  | text => rfl
  | @code source p nl ts nl' n ht hnl hn hnl' =>
    have hopens : Opens opensExpression ts := hn.opens
    have hfits : Fits good ((nl ++ (ts ++ nl')).length + 1) ts := by
      constructor
      · simp only [List.length_append]
        omega
      · intro raw q hm
        exact hgood source raw rfl (Token.tokenize_template_length ht (q := q) (by simp [hm]))
    have hends : Ends continuesExpression nl' := by
      simpa using Ends.newlines hnl' rfl (Ends.nil continuesExpression)
    have hrest : dropNewlines nl' = [] := by
      simpa [dropNewlines] using dropNewlines_append hnl' []
    have hfront : dropNewlines (nl ++ (ts ++ nl')) = ts ++ nl' := by
      rw [dropNewlines_append hnl, dropNewlines_opens (hopens.append _)]
    refine embedded_eq_ok.2 ⟨_, nl', ht, ?_, hrest⟩
    rw [hfront]
    exact Grammar.expression_complete hleaf _ hn hfits hends

/-- The induction is on the depth that is allowed: code is no longer than the template around it,
and the templates in the code are shorter than the code. -/
theorem parseWithin_complete (k : Nat) ⦃raw : String⦄ ⦃p : Position⦄ ⦃n : Node⦄
    (h : Phrase.Template raw p n) (hk : raw.length < k) : parseWithin k raw p = .ok n := by
  induction k generalizing raw p n with
  | zero => omega
  | succ k ih =>
    cases h with
    | mk hparts =>
      refine parseWithin_eq_ok.2 ⟨_, ?_, rfl⟩
      have hcode : ∀ source q, (Segment.code source, q) ∈ segments raw.toList (p.advance '"') →
          source.length ≤ raw.length := fun source q hm => by
        simpa only [String.length_toList] using segments_code_length hm
      generalize segments raw.toList (p.advance '"') = pieces at hparts hcode
      induction hparts with
      | nil => exact .nil
      | @cons s part pieces parts hs _ hrest =>
        refine .cons (segmentNode_complete ih hs ?_) ?_
        · intro source inner hsource hinner
          have := hcode source s.2 (by rw [← hsource]; simp)
          omega
        · exact hrest fun source q hm => hcode source q (List.mem_cons_of_mem _ hm)

theorem parse_eq_ok {raw : String} {p : Position} {n : Node} :
    parse raw p = .ok n ↔ Phrase.Template raw p n :=
  ⟨fun h => parseWithin_sound .derivations _ h,
    fun h => parseWithin_complete _ h (Nat.lt_succ_self _)⟩

end Template

/-! ## Programs -/

namespace Program

open Scriptlet.Parser

theorem ofTokens_eq_ok {tokens : Tokens} {n : Node} :
    ofTokens tokens = .ok n ↔
      ∃ body, Grammar.statementsWithin (Grammar.expression Template.parse (tokens.length + 1))
        (tokens.length + 1) tokens = .ok (body, []) ∧ n = ⟨.statements body, .start⟩ := by
  rw [ofTokens, except_bind_eq_ok]
  constructor
  · rintro ⟨⟨n', rest⟩, h, hend⟩
    obtain ⟨u, hc, hn⟩ := except_bind_eq_ok.1 hend
    rw [Tokens.checkEnd_eq_ok] at hc
    rw [Grammar.statements, get_bind] at h
    obtain ⟨body, mid, hbody, h⟩ := bind_eq_ok.1 h
    obtain ⟨rfl, rfl⟩ := pure_eq_ok.1 h
    cases hn
    rw [hc] at hbody
    exact ⟨body, hbody, rfl⟩
  · rintro ⟨body, hbody, rfl⟩
    refine ⟨(⟨.statements body, .start⟩, []), ?_, rfl⟩
    rw [Grammar.statements, get_bind, bind_of_ok hbody]
    rfl

theorem statementList_of_ofTokens {P : Tokens → Node → Prop}
    {Q : String → Position → Node → Prop} (hclosed : Closed P Q) {tokens : Tokens} {n : Node}
    (h : ofTokens tokens = .ok n) :
    ∃ body, StatementList P tokens body ∧ n = ⟨.statements body, .start⟩ := by
  obtain ⟨body, hbody, rfl⟩ := ofTokens_eq_ok.1 h
  have hleaf : ∀ ⦃raw p n⦄, Template.parse raw p = .ok n → Q raw p n :=
    fun raw p n h => Template.parseWithin_sound hclosed _ h
  have hexpr := Grammar.expression_sound hclosed hleaf (tokens.length + 1)
  obtain ⟨used, hused, hlist⟩ := Grammar.statementsWithin_sound hexpr hclosed.opens _ hbody
  rw [List.append_nil] at hused
  exact ⟨body, hused ▸ hlist, rfl⟩

theorem ofTokens_sound {tokens : Tokens} {n : Node} (h : ofTokens tokens = .ok n) :
    Phrase.Program tokens n := by
  obtain ⟨body, hlist, rfl⟩ := statementList_of_ofTokens .derivations h
  exact .mk hlist

theorem ofTokens_complete {tokens : Tokens} {n : Node} (h : Phrase.Program tokens n) :
    ofTokens tokens = .ok n := by
  cases h with
  | @mk body hlist =>
    have hexpr : Complete (Grammar.expression Template.parse (tokens.length + 1)) Expression
        (Fits (fun _ => True) (tokens.length + 1)) (Ends continuesExpression) :=
      Grammar.expression_complete (fun _ _ _ h _ => Template.parse_eq_ok.2 h) _
    have hfits : Fits (fun _ => True) (tokens.length + 1) tokens :=
      ⟨Nat.lt_succ_self _, fun _ _ _ => trivial⟩
    have hend : EndsStatements [] := fun _ h => by cases h
    have hbody := Grammar.statementsWithin_complete hexpr (fun _ _ => Expression.opens) _ hlist
      hfits (Nat.lt_succ_self _) hend
    rw [List.append_nil] at hbody
    exact ofTokens_eq_ok.2 ⟨body, hbody, rfl⟩

/-- The reader gives a program's tree exactly if the grammar derives it, and the grammar derives at
most one tree from given tokens. The same holds of the templates at the leaves. -/
theorem ofTokens_eq_ok_iff_derivable (tokens : Tokens) :
    (∀ n, ofTokens tokens = .ok n ↔ Phrase.Program tokens n) ∧
      (∀ m n, Phrase.Program tokens m → Phrase.Program tokens n → m = n) ∧
      ∀ raw p n, Template.parse raw p = .ok n ↔ Phrase.Template raw p n := by
  refine ⟨fun n => ⟨ofTokens_sound, ofTokens_complete⟩, fun m n hm hn => ?_,
    fun raw p n => Template.parse_eq_ok⟩
  have heq : Except.ok m = Except.ok n := (ofTokens_complete hm).symm.trans (ofTokens_complete hn)
  exact Except.ok.inj heq

end Program

end Scriptlet
