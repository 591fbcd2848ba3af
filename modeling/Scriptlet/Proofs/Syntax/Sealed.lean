import Scriptlet.Proofs.Syntax.Derivation
/-!
# Lexemes and the line after them

What follows a line feed has no part in the lexemes before it, with one exception: a block comment
that is not closed is read as a slash and a star, until a later text closes it. No program has these
two tokens next to each other (`Program.sealed_of_ofTokens`), and so the tokens of two programs on
lines of their own are the tokens of the first and then those of the second (`Token.Scanned.join`).
-/
namespace Scriptlet

open Phrase

namespace Lexeme

def Scan.extend (s : Scan) (more : List Char) : Scan :=
  { s with rest := s.rest ++ more }

variable {c d : Char} {cs more : List Char}

theorem takeWhile_append_stop {p : Char → Bool} (hd : p d = false) (cs more : List Char) :
    (cs ++ d :: more).takeWhile p = cs.takeWhile p := by
  induction cs with
  | nil => simp [hd]
  | cons c cs ih =>
    rw [List.cons_append, List.takeWhile_cons, List.takeWhile_cons, ih]

theorem dropWhile_append_stop {p : Char → Bool} (hd : p d = false) (cs more : List Char) :
    (cs ++ d :: more).dropWhile p = cs.dropWhile p ++ d :: more := by
  induction cs with
  | nil => simp [hd]
  | cons c cs ih =>
    rw [List.cons_append, List.dropWhile_cons, List.dropWhile_cons, ih]
    split <;> rfl

theorem run_extend {p : Char → Bool} (hp : p '\n' = false) (make : List Char → Lexeme) :
    run p make c (cs ++ '\n' :: more) = (run p make c cs).extend ('\n' :: more) := by
  simp only [run, Scan.extend, takeWhile_append_stop hp, dropWhile_append_stop hp]

theorem plainText_extend (h : (plainText cs).lexeme ≠ .unrecognized) :
    plainText (cs ++ more) = (plainText cs).extend more := by
  have hcs := List.takeWhile_append_dropWhile (p := fun c => decide (c ≠ '\'')) (l := cs)
  unfold plainText at h ⊢
  split at h
  · next quote rest hdrop =>
    have hquote : decide (quote ≠ '\'') = false := by simp [eq_quote_of_dropWhile hdrop]
    rw [hdrop] at hcs
    have hjoined : cs ++ more =
        cs.takeWhile (fun c => decide (c ≠ '\'')) ++ quote :: (rest ++ more) := by
      rw [← List.cons_append, ← List.append_assoc, hcs]
    have hall : ∀ c ∈ cs.takeWhile (fun c => decide (c ≠ '\'')), decide (c ≠ '\'') :=
      fun c hc => List.mem_takeWhile_imp (p := fun c => decide (c ≠ '\'')) hc
    rw [hjoined, takeWhile_append_stop hquote, dropWhile_append_stop hquote,
      List.takeWhile_eq_self_iff.2 hall, List.dropWhile_eq_nil_iff.2 hall]
    rfl
  · exact absurd rfl h

theorem templateBody_append {body rest : List Char} (h : templateBody cs = (body, '"' :: rest)) :
    templateBody (cs ++ more) = (body, '"' :: rest ++ more) := by
  fun_induction templateBody cs generalizing body rest with
  | case1 => cases h
  | case2 => cases h
  | case3 c cs hc body' rest' hbody ih =>
    cases h
    rw [List.cons_append, List.cons_append, templateBody, ih hbody]
    exact hc
  | case4 =>
    cases h
    rfl
  | case5 c cs h1 h2 hc body' rest' hbody ih =>
    cases h
    have hplain : c ≠ '\\' := by
      rintro rfl
      cases cs with
      | nil => cases hbody
      | cons d cs => exact h2 d cs rfl rfl
    rw [List.cons_append, templateBody, if_neg hc, ih hbody]
    · exact fun _ hslash => absurd hslash hplain
    · exact fun _ _ hslash => absurd hslash hplain

theorem templateText_extend (h : (templateText cs).lexeme ≠ .unrecognized) :
    templateText (cs ++ more) = (templateText cs).extend more := by
  unfold templateText at h ⊢
  split at h
  · next body rest hbody =>
    rw [templateBody_append hbody]
    rfl
  · exact absurd rfl h

theorem commentBody?_append {body rest : List Char} (h : commentBody? cs = some (body, rest)) :
    commentBody? (cs ++ more) = some (body, rest ++ more) := by
  fun_induction commentBody? cs generalizing body rest with
  | case1 => cases h
  | case2 =>
    cases h
    rfl
  | case3 c cs hc ih =>
    obtain ⟨⟨body', rest'⟩, hbody, heq⟩ := Option.map_eq_some_iff.1 h
    cases heq
    rw [List.cons_append, commentBody?, ih hbody]
    · rfl
    · intro rest hstar hslash
      cases cs with
      | nil => cases hbody
      | cons d cs =>
        cases hslash
        exact hc cs hstar rfl

theorem isPrefixOf_append_newline {spelling : List Char} (h : '\n' ∉ spelling) (cs : List Char) :
    spelling.isPrefixOf (cs ++ '\n' :: more) = spelling.isPrefixOf cs := by
  induction spelling generalizing cs with
  | nil => rfl
  | cons d spelling ih =>
    rw [List.mem_cons, not_or] at h
    cases cs with
    | nil => simp [List.isPrefixOf, Ne.symm h.1]
    | cons c cs => rw [List.cons_append, List.isPrefixOf, List.isPrefixOf, ih h.2]

theorem newline_not_mem_signs_tail : ∀ s ∈ Token.signs, '\n' ∉ s.1.tail := by
  decide

theorem find?_signs_extend : (Token.signs.find? fun (spelling, _) =>
    spelling.isPrefixOf (c :: (cs ++ '\n' :: more))) =
      Token.signs.find? fun (spelling, _) => spelling.isPrefixOf (c :: cs) := by
  have hsigns : ∀ s ∈ Token.signs,
      s.1.isPrefixOf (c :: (cs ++ '\n' :: more)) = s.1.isPrefixOf (c :: cs) := by
    rintro ⟨spelling, t⟩ hs
    cases spelling with
    | nil => exact absurd rfl (signs_ne_nil _ hs)
    | cons d spelling =>
      have htail : '\n' ∉ spelling := newline_not_mem_signs_tail _ hs
      rw [List.isPrefixOf, List.isPrefixOf, isPrefixOf_append_newline htail]
  rw [← List.head?_filter, ← List.head?_filter, List.filter_congr hsigns]

theorem sign_extend : sign c (cs ++ '\n' :: more) = (sign c cs).extend ('\n' :: more) := by
  unfold sign
  rw [find?_signs_extend]
  cases hs : List.find? _ Token.signs with
  | none => rfl
  | some found =>
    have hprefix : found.1 <+: c :: cs := by simpa using List.find?_some hs
    dsimp only
    rw [← List.cons_append, List.drop_append_of_le_length hprefix.length_le]
    rfl

theorem first_slash_slash (cs : List Char) :
    first '/' ('/' :: cs) = run (· ≠ '\n') (fun _ => .skipped) '/' ('/' :: cs) := rfl

theorem first_slash_star (cs : List Char) :
    first '/' ('*' :: cs) =
      match commentBody? cs with
      | some (body, after) => ⟨.skipped, '/' :: '*' :: body, after⟩
      | none => ⟨.token .slash, ['/'], '*' :: cs⟩ := rfl

theorem first_star (cs : List Char) : first '*' cs = ⟨.token .star, ['*'], cs⟩ := rfl

theorem first_newline (cs : List Char) : first '\n' cs = ⟨.token .newline, ['\n'], cs⟩ := rfl

theorem first_sign (hblank : ¬ isBlank c) (hdecimal : ¬ isDecimal c) (hname : ¬ startsName c)
    (hquote : c ≠ '\'') (hdouble : c ≠ '"')
    (hcomment : c = '/' → cs.head? ≠ some '/' ∧ cs.head? ≠ some '*') : first c cs = sign c cs := by
  unfold first
  rw [if_neg hblank, if_neg hdecimal, if_neg hname, if_neg hquote, if_neg hdouble]
  split
  · exact absurd rfl (hcomment rfl).1
  · exact absurd rfl (hcomment rfl).2
  · rfl

theorem first_slash_extend :
    first '/' (cs ++ '\n' :: more) = (first '/' cs).extend ('\n' :: more) ∨
      first '/' cs = ⟨.token .slash, ['/'], cs⟩ ∧ cs.head? = some '*' := by
  by_cases hslash : cs.head? = some '/'
  · obtain ⟨cs, rfl⟩ := List.head?_eq_some_iff.1 hslash
    rw [List.cons_append, first_slash_slash, first_slash_slash, ← List.cons_append]
    exact .inl (run_extend rfl _)
  by_cases hstar : cs.head? = some '*'
  · obtain ⟨cs, rfl⟩ := List.head?_eq_some_iff.1 hstar
    rw [List.cons_append, first_slash_star, first_slash_star]
    cases hbody : commentBody? cs with
    | none => exact .inr ⟨rfl, rfl⟩
    | some found =>
      rw [commentBody?_append hbody]
      exact .inl rfl
  · have hsign : ∀ cs : List Char, cs.head? ≠ some '/' → cs.head? ≠ some '*' →
        first '/' cs = sign '/' cs := fun cs hslash hstar =>
      first_sign (by decide) (by decide) (by decide) (by decide) (by decide)
        fun _ => ⟨hslash, hstar⟩
    rw [hsign cs hslash hstar, hsign]
    · exact .inl sign_extend
    all_goals
      cases cs with
      | nil => simp
      | cons d cs => assumption

/-- A lexeme stays the same with a line feed and more behind the text, or the text opens a block
comment that it does not close. -/
theorem first_extend (h : (first c cs).lexeme ≠ .unrecognized) (more : List Char) :
    first c (cs ++ '\n' :: more) = (first c cs).extend ('\n' :: more) ∨
      first c cs = ⟨.token .slash, ['/'], cs⟩ ∧ cs.head? = some '*' := by
  by_cases hquote : c = '\''
  · subst hquote
    exact .inl (plainText_extend h)
  by_cases hdouble : c = '"'
  · subst hdouble
    exact .inl (templateText_extend h)
  by_cases hslash : c = '/'
  · subst hslash
    exact first_slash_extend
  left
  by_cases hblank : isBlank c
  · unfold first
    rw [if_pos hblank, if_pos hblank]
    exact run_extend rfl _
  by_cases hdecimal : isDecimal c
  · unfold first
    rw [if_neg hblank, if_neg hblank, if_pos hdecimal, if_pos hdecimal]
    exact run_extend rfl _
  by_cases hname : startsName c
  · unfold first
    rw [if_neg hblank, if_neg hblank, if_neg hdecimal, if_neg hdecimal, if_pos hname, if_pos hname]
    exact run_extend rfl _
  · have hsign : ∀ cs : List Char, first c cs = sign c cs := fun cs =>
      first_sign hblank hdecimal hname hquote hdouble fun h => absurd h hslash
    rw [hsign, hsign]
    exact sign_extend

end Lexeme

/-- Every slash has a token after it, and not a star. -/
inductive Tokens.Sealed : Tokens → Prop
  | nil : Sealed []
  | cons {t : Token} {p : Position} {ts : Tokens} :
      (t = .slash → ∃ u ∈ ts.head?, u.1 ≠ .star) → Sealed ts → Sealed ((t, p) :: ts)

namespace Tokens.Sealed

variable {t : Token} {p : Position} {ts us : Tokens}

theorem token (ht : t ≠ .slash) (hts : Sealed ts) : Sealed ((t, p) :: ts) :=
  .cons (fun h => absurd h ht) hts

theorem append (hts : Sealed ts) (hus : Sealed us) : Sealed (ts ++ us) := by
  induction hts with
  | nil => exact hus
  | cons ht _ ih =>
    rw [List.cons_append]
    refine .cons (fun h => ?_) ih
    obtain ⟨u, hu, hne⟩ := ht h
    exact ⟨u, by rw [List.head?_append, hu]; rfl, hne⟩

theorem of_forall (h : ∀ u ∈ ts, u.1 ≠ .slash) : Sealed ts := by
  induction ts with
  | nil => exact .nil
  | cons u ts ih =>
    rw [List.forall_mem_cons] at h
    exact token h.1 (ih h.2)

end Tokens.Sealed

/-- A text, a line feed and another text have the tokens of the first, a token for the line feed,
and the tokens of the second. -/
theorem Token.Scanned.join {cs : List Char} {p : Position} {ts : Tokens} (h : Scanned cs p ts)
    (hsealed : ts.Sealed) {more : List Char} {us : Tokens}
    (hmore : Scanned more ((p.after cs).advance '\n') us) :
    Scanned (cs ++ '\n' :: more) p (ts ++ (.newline, p.after cs) :: us) := by
  induction h with
  | done =>
    refine .token (by rw [Lexeme.first_newline]) ?_
    rw [Lexeme.first_newline]
    exact hmore
  | @token c cs p t ts ht hrest ih =>
    rw [← Lexeme.first_covers c cs, Position.after_append] at hmore
    have hrecognized : (Lexeme.first c cs).lexeme ≠ .unrecognized := by simp [ht]
    rw [List.cons_append, List.cons_append]
    cases hsealed with
    | cons hslash hsealed =>
      rcases Lexeme.first_extend hrecognized more with hfirst | ⟨hfirst, hstar⟩
      · have hjoined := ih hsealed hmore
        rw [← Position.after_append, Lexeme.first_covers] at hjoined
        refine .token (t := t) ?_ ?_
        · rw [hfirst]
          exact ht
        · rw [hfirst]
          exact hjoined
      · -- the star would be the next token, which no slash has after it
        obtain ⟨rest, rfl⟩ := List.head?_eq_some_iff.1 hstar
        rw [hfirst] at ht hrest
        cases ht
        obtain ⟨u, hu, hne⟩ := hslash rfl
        cases hrest with
        | token ht _ =>
          rw [Lexeme.first_star] at ht
          cases ht
          cases hu
          exact absurd rfl hne
        | skipped hs _ =>
          rw [Lexeme.first_star] at hs
          cases hs
  | @skipped c cs p ts hs hrest ih =>
    rw [← Lexeme.first_covers c cs, Position.after_append] at hmore
    have hrecognized : (Lexeme.first c cs).lexeme ≠ .unrecognized := by simp [hs]
    rw [List.cons_append]
    rcases Lexeme.first_extend hrecognized more with hfirst | ⟨hfirst, -⟩
    · have hjoined := ih hsealed hmore
      rw [← Position.after_append, Lexeme.first_covers] at hjoined
      refine .skipped ?_ ?_
      · rw [hfirst]
        exact hs
      · rw [hfirst]
        exact hjoined
    · rw [hfirst] at hs
      cases hs

/-! ## Phrases -/

def Sealing {α : Type} (phrase : Tokens → α → Prop) : Prop :=
  ∀ ⦃ts a⦄, phrase ts a → ts.Sealed

namespace Phrase

open Tokens (Sealed)

theorem Newlines.sealed {ts : Tokens} (h : Newlines ts) : ts.Sealed :=
  .of_forall fun u hu => by rw [h u hu]; decide

theorem Separators.sealed {ts : Tokens} (h : Separators ts) : ts.Sealed := by
  refine .of_forall fun u hu => ?_
  have hu := h u hu
  rintro heq
  rw [heq] at hu
  cases hu

section Lists

variable {α : Type} {item : Tokens → α → Prop} (h : Sealing item)

include h

theorem many_sealed : Sealing (Many item) := by
  intro ts as hmany
  induction hmany with
  | nil => exact .nil
  | cons ha _ ih => exact (h ha).append ih

theorem items_sealed {closing : Token} (hclosing : closing ≠ .slash) :
    Sealing (Items item closing) := by
  have hfurther : Sealing (FurtherItem item) := by
    rintro _ _ ⟨hnl, ha, hnl'⟩
    exact .token (by decide) (hnl.sealed.append ((h ha).append hnl'.sealed))
  have htrailing : ∀ ts, TrailingComma ts → ts.Sealed := by
    rintro _ (_ | hnl)
    · exact .nil
    · exact .token (by decide) hnl.sealed
  have hlast : ∀ p, Sealed [(closing, p)] := fun p => .token hclosing .nil
  intro ts as hitems
  cases hitems with
  | empty hnl => exact hnl.sealed.append (hlast _)
  | filled hnl ha hnl' has htrail =>
    refine hnl.sealed.append ((h ha).append (hnl'.sealed.append ?_))
    exact (many_sealed hfurther has).append ((htrailing _ htrail).append (hlast _))

end Lists

section Constructs

variable {expr : Tokens → Node → Prop} (h : Sealing expr)

include h

theorem statementList_sealed : Sealing (StatementList expr) := by
  have hfurther : Sealing (FurtherStatement expr) := by
    rintro _ _ ⟨hseps, _, hn⟩
    exact hseps.sealed.append (h hn)
  intro ts body hlist
  cases hlist with
  | empty hseps => exact hseps.sealed
  | filled hseps hn hns hseps' =>
    exact hseps.sealed.append ((h hn).append ((many_sealed hfurther hns).append hseps'.sealed))

theorem block_sealed : Sealing (Block expr) := by
  rintro _ _ ⟨hlist⟩
  exact .token (by decide) ((statementList_sealed h hlist).append (.token (by decide) .nil))

theorem branch_sealed : Sealing (Branch expr) := by
  rintro _ _ ⟨hcondition, hbody⟩
  exact (h hcondition).append (block_sealed h hbody)

theorem alternatives_sealed : Sealing (Alternatives expr) := by
  have helseIf : Sealing (ElseIf expr) := by
    rintro _ _ ⟨hnl, hbranch⟩
    exact hnl.sealed.append (.token (by decide) (.token (by decide) (branch_sealed h hbranch)))
  have helse : Sealing (Else expr) := by
    rintro _ _ (_ | ⟨hnl, hbody⟩)
    · exact .nil
    · exact hnl.sealed.append (.token (by decide) (block_sealed h hbody))
  rintro _ _ ⟨hmore, hlast⟩
  exact (many_sealed helseIf hmore).append (helse hlast)

theorem enclosed_sealed {closing : Token} (hclosing : closing ≠ .slash) :
    Sealing (Enclosed expr closing) := by
  rintro _ _ ⟨hnl, hn, hnl'⟩
  exact hnl.sealed.append ((h hn).append (hnl'.sealed.append (.token hclosing .nil)))

theorem entry_sealed : Sealing (Entry expr) := by
  rintro _ _ ⟨hnl, hn⟩
  exact .token nofun (.token (by decide) (hnl.sealed.append (h hn)))

theorem trailer_sealed : Sealing (Trailer expr) := by
  intro ts suffix htrailer
  cases htrailer with
  | arguments hitems => exact .token (by decide) (items_sealed h (by decide) hitems)
  | index hindex => exact .token (by decide) (enclosed_sealed h (by decide) hindex)
  | property => exact .token (by decide) (.token nofun .nil)

end Constructs

section Levels

variable {side : Tokens → Node → Prop} (h : Sealing side)
  (hopens : ∀ ⦃ts n⦄, side ts n → Opens opensOperand ts)

include h hopens

/-- A slash stands before an operand, if line feeds are left out, and no operand opens with a
star. -/
theorem operand_sealed {α : Type} (operator? : Token → Option α) :
    Sealing (Operand operator? side) := by
  intro ts o hoperand
  cases hoperand with
  | @mk _ _ _ nl ts n _ hnl hn =>
    refine .cons (fun _ => ?_) (hnl.sealed.append (h hn))
    cases nl with
    | nil =>
      obtain ⟨t, p, us, rfl, ht⟩ := hopens hn
      refine ⟨(t, p), rfl, ?_⟩
      rintro rfl
      cases ht
    | cons u nl => exact ⟨u, rfl, by rw [hnl u List.mem_cons_self]; decide⟩

theorem chain_sealed {α : Type} {operator? : Token → Option α}
    {make : Node → List (α × Node) → NodeKind} : Sealing (Chain operator? make side) := by
  intro ts n hchain
  cases hchain with
  | single hn => exact h hn
  | several hfirst hrest =>
    exact (h hfirst).append (many_sealed (operand_sealed h hopens operator?) hrest)

theorem comparison_sealed : Sealing (Comparison side) := by
  intro ts n hcomparison
  cases hcomparison with
  | single hn => exact h hn
  | compared hleft hright => exact (h hleft).append (operand_sealed h hopens _ hright)

omit hopens in
theorem unary_sealed : Sealing (Unary side) := by
  intro ts n hunary
  induction hunary with
  | unsigned hn => exact h hn
  | signed hop _ ih =>
    refine .token ?_ ih
    rintro rfl
    cases hop

end Levels

section Expressions

variable {expr : Tokens → Node → Prop} (h : Sealing expr)
  (leaf : String → Position → Node → Prop)

include h

theorem primary_sealed : Sealing (Primary expr leaf) := by
  intro ts n hprimary
  cases hprimary with
  | parenthesized hinner => exact .token (by decide) (enclosed_sealed h (by decide) hinner)
  | whileLoop hbranch => exact .token (by decide) (branch_sealed h hbranch)
  | conditional hfirst hrest =>
    exact .token (by decide) ((branch_sealed h hfirst).append (alternatives_sealed h hrest))
  | function hparams hbody =>
    have hparam : Sealing Param := by
      rintro _ _ (_ | _)
      · exact .token nofun .nil
      · exact .token (by decide) (.token nofun .nil)
    have hparams := items_sealed hparam (by decide) hparams
    exact .token (by decide) (.token (by decide) (hparams.append (block_sealed h hbody)))
  | object hentries => exact .token (by decide) (items_sealed (entry_sealed h) (by decide) hentries)
  | array hitems => exact .token (by decide) (items_sealed h (by decide) hitems)
  | _ => exact .token nofun .nil

theorem call_sealed : Sealing (Call expr leaf) := by
  intro ts n hcall
  cases hcall with
  | bare hn => exact primary_sealed h leaf hn
  | trailed hcallee hsuffixes =>
    exact (primary_sealed h leaf hcallee).append (many_sealed (trailer_sealed h) hsuffixes)

theorem disjunction_sealed : Sealing (Disjunction expr leaf) := by
  have hproduct : Sealing (Multiplicative expr leaf) := by
    rintro _ _ ⟨hn⟩
    refine chain_sealed (call_sealed h leaf) (fun _ _ hcall => ?_) hn
    exact hcall.opens.mono fun t ht => by simp [opensOperand, ht]
  have hsum : Sealing (Additive expr leaf) := by
    rintro _ _ ⟨hn⟩
    exact chain_sealed (unary_sealed hproduct)
      (fun _ _ => Unary.opens fun _ _ => Multiplicative.opens) hn
  have hconjunction : Sealing (Conjunction expr leaf) := by
    rintro _ _ ⟨hn⟩
    exact chain_sealed (comparison_sealed hsum fun _ _ => Additive.opens)
      (fun _ _ => Comparison.opens fun _ _ => Additive.opens) hn
  rintro _ _ ⟨hn⟩
  exact chain_sealed hconjunction (fun _ _ => Conjunction.opens) hn

end Expressions

theorem closed_sealed :
    Closed (fun ts _ => Opens opensExpression ts ∧ ts.Sealed) (fun _ _ _ => True) where
  opens _ _ h := h.1
  assignment _ _ _ _ _ _ hnl h :=
    ⟨⟨_, _, _, rfl, rfl⟩, .token nofun (.token (by decide) (hnl.sealed.append h.2))⟩
  declaration _ _ _ _ _ _ _ hnl h :=
    ⟨⟨_, _, _, rfl, rfl⟩,
      .token (by decide) (.token nofun (.token (by decide) (hnl.sealed.append h.2)))⟩
  propertyAssignment _ _ _ _ _ _ _ _ hleft _ hnl h :=
    ⟨(hleft.opens.mono opensExpression_of_opensOperand).append _,
      (disjunction_sealed (fun _ _ h => h.2) _ hleft).append
        (.token (by decide) (hnl.sealed.append h.2))⟩
  disjunction _ _ h := ⟨h.opens.mono opensExpression_of_opensOperand,
    disjunction_sealed (fun _ _ h => h.2) _ h⟩
  template _ _ _ _ := trivial

end Phrase

theorem Program.sealed_of_ofTokens {tokens : Tokens} {n : Node} (h : ofTokens tokens = .ok n) :
    tokens.Sealed := by
  obtain ⟨body, hlist, -⟩ := statementList_of_ofTokens closed_sealed h
  exact statementList_sealed (fun _ _ h => h.2) hlist

end Scriptlet
