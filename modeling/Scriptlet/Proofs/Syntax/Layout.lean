import Scriptlet.Proofs.Syntax.Derivation
/-!
# Line feeds without a meaning

Where a phrase has to go on, a line feed has no meaning: behind an opening bracket, a comma, a
colon, an equals sign or an operator between two operands, and before a closing bracket, a comma or
an `else`. A semicolon means no more than a line feed. Main statement: a program that is laid out
anew in this way keeps its tree (`Program.ofTokens_relaid`). Whether a sign stands between two
operands is told by the token before it (`Token.endsOperand`), which is why a layout is always seen
together with the tokens before it.
-/
namespace Scriptlet

open Phrase Grammar

/-! ## Layouts -/

namespace Token

/-- The tokens that an operand can end with. A sign behind one of them stands between two operands,
and every other sign stands in front of its operand. -/
def endsOperand : Token → Bool
  | number _ | identifier _ | plain _ | template _ | kwTrue | kwFalse | kwUndefined
  | rightParen | rightBracket | rightBrace => true
  | _ => false

/-- The tokens behind which a phrase has to go on, apart from the signs. -/
def leavesOpen : Token → Bool
  | leftParen | leftBracket | leftBrace | comma | equals | colon | star | slash | percent
  | equalEqual | bangEqual | lessEqual | less | greaterEqual | greater | andAnd | orOr => true
  | _ => false

/-- The tokens that belong to the phrase before them. -/
def belongsBack : Token → Bool
  | rightParen | rightBracket | rightBrace | comma | kwElse => true
  | _ => false

/-- The last of the tokens ends an operand. Here and below, the last token comes first. -/
def afterOperand (before : List Token) : Bool :=
  before.head?.any endsOperand

/-- Behind these tokens a phrase has to go on. -/
def breaksAfter : List Token → Bool
  | [] => false
  | t :: before => leavesOpen t || (t = plus || t = minus) && afterOperand before

end Token

namespace Tokens

/-- A token is left as it is, or it is a semicolon that becomes a line feed. -/
def Rewritten (t t' : Token × Position) : Prop :=
  t' = t ∨ t.1 = .semicolon ∧ t'.1 = .newline

/-- Tokens that follow `before`, laid out anew: any number of line feeds is put in where they have
no meaning, and semicolons become line feeds. -/
inductive Relaid : List Token → Tokens → Tokens → Prop
  | done {before : List Token} {nl : Tokens} : Newlines nl → (nl ≠ [] → Token.breaksAfter before) →
      Relaid before [] nl
  | token {before : List Token} {nl ts us : Tokens} {t t' : Token × Position} : Newlines nl →
      (nl ≠ [] → Token.breaksAfter before ∨ t.1.belongsBack) → Rewritten t t' →
      Relaid (t.1 :: before) ts us → Relaid before (t :: ts) (nl ++ t' :: us)

def past (before : List Token) (ts : Tokens) : List Token :=
  (ts.map (·.1)).reverse ++ before

@[simp]
theorem past_nil (before : List Token) : past before [] = before := rfl

@[simp]
theorem past_cons (before : List Token) (t : Token × Position) (ts : Tokens) :
    past before (t :: ts) = past (t.1 :: before) ts := by
  simp [past]

@[simp]
theorem past_append (before : List Token) (ts us : Tokens) :
    past before (ts ++ us) = past (past before ts) us := by
  simp [past]

end Tokens

namespace Token

variable {before : List Token}

theorem not_afterOperand_cons (t : Token) (ht : ¬ t.endsOperand) : ¬ afterOperand (t :: before) :=
  ht

theorem not_breaksAfter_cons (t : Token) (ht : ¬ t.leavesOpen)
    (hsign : ¬ (t = plus ∨ t = minus)) : ¬ breaksAfter (t :: before) := by
  simp only [breaksAfter, Bool.or_eq_true, Bool.and_eq_true, decide_eq_true_eq]
  rintro (hopen | ⟨hplus, -⟩)
  · exact ht hopen
  · exact hsign hplus

theorem not_breaksAfter_of_afterOperand (h : afterOperand before) :
    ¬ breaksAfter before := by
  cases before with
  | nil => cases h
  | cons t before =>
    change endsOperand t = true at h
    apply not_breaksAfter_cons <;> cases t <;> simp_all [endsOperand, leavesOpen]

end Token

/-! ## Taking a layout apart -/

namespace Tokens

open Token

variable {before : List Token} {t : Token} {p : Position} {nl ts more us : Tokens}

/-- The front of `us` is `ts`, laid out anew in the given way, and the rest of it is `more`. -/
def Yields (before : List Token) (ts more us : Tokens) (good : Tokens → Prop) : Prop :=
  ∃ ts' us', us = ts' ++ us' ∧ good ts' ∧ Relaid (past before ts) more us'

theorem Relaid.cons (h : Relaid before ((t, p) :: more) us) (ht : t ≠ .semicolon) :
    ∃ nl us', Newlines nl ∧ (nl ≠ [] → breaksAfter before ∨ t.belongsBack) ∧
      us = nl ++ (t, p) :: us' ∧ Relaid (t :: before) more us' := by
  cases h with
  | token hnl hgap ht' hmore =>
    rcases ht' with rfl | ⟨hsemicolon, -⟩
    · exact ⟨_, _, hnl, hgap, rfl, hmore⟩
    · exact absurd hsemicolon ht

theorem Relaid.opening (h : Relaid before ((t, p) :: more) us) (ht : t ≠ .semicolon)
    (hback : ¬ t.belongsBack) :
    ∃ nl us', Newlines nl ∧ (nl ≠ [] → breaksAfter before) ∧ us = nl ++ (t, p) :: us' ∧
      Relaid (t :: before) more us' := by
  obtain ⟨nl, us', hnl, hgap, heq, hmore⟩ := h.cons ht
  exact ⟨nl, us', hnl, fun hne => (hgap hne).resolve_right hback, heq, hmore⟩

theorem Relaid.cons_tight (h : Relaid before ((t, p) :: more) us) (ht : t ≠ .semicolon)
    (hback : ¬ t.belongsBack) (hbreaks : ¬ breaksAfter before) :
    ∃ us', us = (t, p) :: us' ∧ Relaid (t :: before) more us' := by
  obtain ⟨nl, us', -, hgap, rfl, hmore⟩ := h.opening ht hback
  obtain rfl : nl = [] := by_contra fun hne => hbreaks (hgap hne)
  exact ⟨us', rfl, hmore⟩

theorem Relaid.keep {t : Token × Position} (h : Relaid (t.1 :: before) ts us) :
    Relaid before (t :: ts) (t :: us) := by
  change Relaid before (t :: ts) ([] ++ t :: us)
  exact .token (List.forall_mem_nil _) (fun hne => absurd rfl hne) (.inl rfl) h

theorem Relaid.insert (p : Position)
    (hgap : breaksAfter before ∨ ∃ t ∈ ts.head?, t.1.belongsBack) (h : Relaid before ts us) :
    Relaid before ts ((.newline, p) :: us) := by
  cases h with
  | done hnl _ =>
    refine .done (List.forall_mem_cons.2 ⟨rfl, hnl⟩) fun _ => hgap.resolve_right ?_
    rintro ⟨t, ht, -⟩
    cases ht
  | @token _ nl ts us t t' hnl _ ht hmore =>
    change Relaid before (t :: ts) ((Token.newline, p) :: nl ++ t' :: us)
    refine .token (List.forall_mem_cons.2 ⟨rfl, hnl⟩) (fun _ => hgap.imp_right ?_) ht hmore
    rintro ⟨u, hu, hback⟩
    cases hu
    exact hback

theorem Relaid.separate (p q : Position) (h : Relaid (.semicolon :: before) ts us) :
    Relaid before ((.semicolon, p) :: ts) ((.newline, q) :: us) := by
  change Relaid before ((.semicolon, p) :: ts) ([] ++ (.newline, q) :: us)
  exact .token (List.forall_mem_nil _) (fun hne => absurd rfl hne) (.inr ⟨rfl, rfl⟩) h

theorem Relaid.refl (before : List Token) (ts : Tokens) : Relaid before ts ts := by
  induction ts generalizing before with
  | nil => exact .done (List.forall_mem_nil _) fun hne => absurd rfl hne
  | cons t ts ih => exact (ih _).keep

theorem Yields.cons {good good' : Tokens → Prop} (h : Yields (t :: before) ts more us good)
    (hgood : ∀ ts', good ts' → good' ((t, p) :: ts')) :
    Yields before ((t, p) :: ts) more ((t, p) :: us) good' := by
  obtain ⟨ts', us', rfl, hts', hmore⟩ := h
  exact ⟨(t, p) :: ts', us', rfl, hgood ts' hts', by rwa [past_cons]⟩

/-- A run of tokens of one kind, line feeds among them, stays such a run. -/
theorem Relaid.run (passes : Token → Prop) (hnewline : passes .newline)
    (hts : ∀ t ∈ ts, passes t.1) (h : Relaid before (ts ++ more) us) :
    Yields before ts more us fun ts' => (∀ t ∈ ts', passes t.1) ∧ (ts ≠ [] → ts' ≠ []) := by
  induction ts generalizing before us with
  | nil => exact ⟨[], us, rfl, ⟨hts, id⟩, h⟩
  | cons t ts ih =>
    rw [List.forall_mem_cons] at hts
    cases h with
    | @token _ nl _ _ _ t' hnl _ ht' hmore =>
      obtain ⟨ts', us', rfl, hts', hmore⟩ := ih hts.2 hmore
      have hpasses : passes t'.1 := by
        rcases ht' with rfl | ⟨-, heq⟩
        · exact hts.1
        · exact heq ▸ hnewline
      refine ⟨nl ++ t' :: ts', us', by simp, ⟨?_, by simp⟩, by rwa [past_cons]⟩
      exact List.forall_mem_append.2
        ⟨fun u hu => hnl u hu ▸ hnewline, List.forall_mem_cons.2 ⟨hpasses, hts'.1⟩⟩

theorem Relaid.newlines (hts : Newlines ts) (h : Relaid before (ts ++ more) us) :
    Yields before ts more us Newlines := by
  obtain ⟨ts', us', heq, hts', hmore⟩ := h.run (· = .newline) rfl hts
  exact ⟨ts', us', heq, hts'.1, hmore⟩

/-- A token with line feeds before it: new ones join them. -/
theorem Relaid.newlines_cons (h : Relaid before (nl ++ (t, p) :: more) us) (hnl : Newlines nl)
    (ht : t ≠ .semicolon) :
    ∃ nl' us', Newlines nl' ∧ us = nl' ++ (t, p) :: us' ∧
      Relaid (t :: past before nl) more us' := by
  obtain ⟨nl', us', rfl, hnl', hrest⟩ := h.newlines hnl
  obtain ⟨nl'', us', hnl'', -, rfl, hmore⟩ := hrest.cons ht
  exact ⟨nl' ++ nl'', us', List.forall_mem_append.2 ⟨hnl', hnl''⟩, by simp, hmore⟩

theorem not_afterOperand_past (hts : ∀ t ∈ ts, ¬ t.1.endsOperand)
    (hbefore : ts = [] → ¬ afterOperand before) : ¬ afterOperand (past before ts) := by
  induction ts using List.reverseRecOn with
  | nil => exact hbefore rfl
  | append_singleton ts t =>
    rw [past_append, past_cons, past_nil]
    exact hts t (by simp)

end Tokens

/-! ## Phrases -/

open Token Tokens

/-- Phrases of one kind, laid out anew, are phrases of another, wherever the tokens before them
satisfy `place`. -/
def Lays {α : Type} (place : List Token → Prop) (phrase laid : Tokens → α → Prop) : Prop :=
  ∀ ⦃ts a⦄, phrase ts a → ∀ ⦃before more us⦄, place before → Relaid before (ts ++ more) us →
    Yields before ts more us (laid · a)

def EndsOperand {α : Type} (phrase : Tokens → α → Prop) : Prop :=
  ∀ ⦃ts a⦄, phrase ts a → ∀ before, afterOperand (past before ts)

/-- Tokens that end an operand, and that are `good` however they are laid out where no operand has
just ended, behind line feeds if the place allows any. -/
structure Pliable (ts : Tokens) (good : Tokens → Prop) : Prop where
  ends : ∀ before, afterOperand (past before ts)
  lays : ∀ ⦃before more us⦄, ¬ afterOperand before → Relaid before (ts ++ more) us →
    ∃ nl us', Newlines nl ∧ (nl ≠ [] → breaksAfter before) ∧ us = nl ++ us' ∧
      Yields before ts more us' good

/-- Phrases of one kind that are phrases of another however they are laid out. -/
def Stays {α : Type} (phrase laid : Tokens → α → Prop) : Prop :=
  ∀ ⦃ts a⦄, phrase ts a → Pliable ts (laid · a)

theorem Pliable.self {ts : Tokens} {good : Tokens → Prop} (h : Pliable ts good) : good ts := by
  obtain ⟨nl, us, -, hgap, heq, ts', us', rfl, hts', hmore⟩ :=
    h.lays (show ¬ afterOperand [] from Bool.false_ne_true) (.refl [] (ts ++ []))
  obtain rfl : nl = [] := by_contra fun hne => Bool.false_ne_true (hgap hne)
  cases hmore with
  | done _ hgap =>
    have hbreaks := not_breaksAfter_of_afterOperand (h.ends [])
    obtain rfl : us' = [] := by_contra fun hne => hbreaks (hgap hne)
    simp only [List.append_nil, List.nil_append] at heq
    rwa [heq]

theorem Pliable.mono {ts : Tokens} {good better : Tokens → Prop} (h : Pliable ts good)
    (hgood : ∀ ts', good ts' → better ts') : Pliable ts better := by
  refine ⟨h.ends, fun before more us hbefore hlaid => ?_⟩
  obtain ⟨nl, us', hnl, hgap, rfl, ts', us', rfl, hts', hmore⟩ := h.lays hbefore hlaid
  exact ⟨nl, _, hnl, hgap, rfl, ts', us', rfl, hgood ts' hts', hmore⟩

/-- What follows an operand and ends with one can be put behind tokens that stay good. -/
theorem Pliable.append {ts ts₂ : Tokens} {good good₂ both : Tokens → Prop} (h : Pliable ts good)
    (hends : ∀ before, afterOperand before → afterOperand (past before ts₂))
    (hlays : ∀ ⦃before more us⦄, afterOperand before → Relaid before (ts₂ ++ more) us →
      Yields before ts₂ more us good₂)
    (hboth : ∀ ts' ts₂', good ts' → good₂ ts₂' → both (ts' ++ ts₂')) :
    Pliable (ts ++ ts₂) both := by
  constructor
  · intro before
    rw [past_append]
    exact hends _ (h.ends before)
  · intro before more us hbefore hlaid
    rw [List.append_assoc] at hlaid
    obtain ⟨nl, us', hnl, hgap, rfl, ts', us', rfl, hts', hrest⟩ := h.lays hbefore hlaid
    obtain ⟨ts₂', us', rfl, hts₂', hmore⟩ := hlays (h.ends before) hrest
    exact ⟨nl, _, hnl, hgap, rfl, ts' ++ ts₂', us', by simp, hboth _ _ hts' hts₂',
      by rwa [past_append]⟩

section Phrases

variable {α : Type} {phrase laid : Tokens → α → Prop} {before : List Token}
  {nl ts more us : Tokens} {a : α}

theorem Stays.tight (h : Stays phrase laid) (ha : phrase ts a) (hbefore : ¬ afterOperand before)
    (hbreaks : ¬ breaksAfter before) (hlaid : Relaid before (ts ++ more) us) :
    Yields before ts more us (laid · a) := by
  obtain ⟨nl, us', -, hgap, rfl, hyields⟩ := (h ha).lays hbefore hlaid
  obtain rfl : nl = [] := by_contra fun hne => hbreaks (hgap hne)
  exact hyields

theorem Stays.run (h : Stays phrase laid) (passes : Token → Prop) (hnewline : passes .newline)
    (hpasses : ∀ t, passes t → ¬ t.endsOperand) (hnl : ∀ t ∈ nl, passes t.1) (ha : phrase ts a)
    (hbefore : nl = [] → ¬ afterOperand before) (hlaid : Relaid before (nl ++ (ts ++ more)) us) :
    ∃ nl' us', (∀ t ∈ nl', passes t.1) ∧ (nl ≠ [] → nl' ≠ []) ∧ us = nl' ++ us' ∧
      Yields (past before nl) ts more us' (laid · a) := by
  obtain ⟨nl', us', rfl, ⟨hnl', hne⟩, hrest⟩ := hlaid.run passes hnewline hnl
  obtain ⟨nl'', us', hnl'', -, rfl, hyields⟩ :=
    (h ha).lays (not_afterOperand_past (fun t ht => hpasses t.1 (hnl t ht)) hbefore) hrest
  refine ⟨nl' ++ nl'', us', ?_, fun hnl => by simp [hne hnl], by simp, hyields⟩
  exact List.forall_mem_append.2 ⟨hnl', fun t ht => hnl'' t ht ▸ hnewline⟩

theorem Stays.newlines (h : Stays phrase laid) (hnl : Newlines nl) (ha : phrase ts a)
    (hbefore : ¬ afterOperand before) (hlaid : Relaid before (nl ++ (ts ++ more)) us) :
    ∃ nl' us', Newlines nl' ∧ us = nl' ++ us' ∧ Yields (past before nl) ts more us' (laid · a) := by
  obtain ⟨nl', us', hnl', -, heq, hyields⟩ := h.run (· = .newline) rfl
    (by rintro _ rfl; decide) hnl ha (fun _ => hbefore) hlaid
  exact ⟨nl', us', hnl', heq, hyields⟩

theorem Stays.separators (h : Stays phrase laid) (hseps : Separators nl) (ha : phrase ts a)
    (hbefore : nl = [] → ¬ afterOperand before) (hlaid : Relaid before (nl ++ (ts ++ more)) us) :
    ∃ seps us', Separators seps ∧ (nl ≠ [] → seps ≠ []) ∧ us = seps ++ us' ∧
      Yields (past before nl) ts more us' (laid · a) := by
  refine h.run (isSeparator ·) rfl (fun t ht => ?_) hseps ha hbefore hlaid
  cases t <;> simp_all [isSeparator, endsOperand]

end Phrases

namespace Phrase

section Lists

variable {α : Type} {item laid : Tokens → α → Prop}

theorem many_lays {place : List Token → Prop} (h : Lays place item laid)
    (hplace : ∀ ⦃ts a⦄, item ts a → ∀ before, place before → place (past before ts)) :
    Lays place (Many item) (Many laid) := by
  intro ts as hmany
  induction hmany with
  | nil => exact fun before more us _ hlaid => ⟨[], us, rfl, .nil, hlaid⟩
  | @cons ts more' a as ha _ ih =>
    intro before more us hbefore hlaid
    rw [List.append_assoc] at hlaid
    obtain ⟨ts', us', rfl, ha', hrest⟩ := h ha hbefore hlaid
    obtain ⟨more', us', rfl, has', hrest⟩ := ih (hplace ha before hbefore) hrest
    exact ⟨ts' ++ more', us', by simp, .cons ha' has', by rwa [past_append]⟩

theorem many_ends (h : EndsOperand item) {ts : Tokens} {as : List α} (hmany : Many item ts as)
    (before : List Token) (hbefore : afterOperand before) : afterOperand (past before ts) := by
  induction hmany generalizing before with
  | nil => exact hbefore
  | cons ha _ ih =>
    rw [past_append]
    exact ih _ (h ha before)

theorem items_ends (closing : Token) (hclosing : closing.endsOperand) :
    EndsOperand (Items item closing) := by
  intro ts as hitems before
  cases hitems with
  | empty => simpa [afterOperand] using hclosing
  | filled => simpa [afterOperand] using hclosing

/-- The induction is on the items: behind a comma the rest is a list again. -/
theorem items_lays (h : Stays item laid) {closing : Token} (hclosing : closing.endsOperand) :
    Lays (¬ afterOperand ·) (Items item closing) (Items laid closing) := by
  have hsemicolon : closing ≠ .semicolon := by
    rintro rfl
    cases hclosing
  intro ts as hitems
  induction as generalizing ts with
  | nil =>
    intro before more us hbefore hlaid
    rcases hitems.front with ⟨nl, p, hnl, rfl, -⟩ | ⟨_, _, _, _, _, _, _, _, _, _, hcons, -⟩
    · rw [List.append_assoc] at hlaid
      obtain ⟨nl', us', hnl', rfl, hmore⟩ := hlaid.newlines_cons hnl hsemicolon
      exact ⟨nl' ++ [(closing, p)], us', by simp, .empty hnl', by simpa using hmore⟩
    · cases hcons
  | cons a as ih =>
    intro before more us hbefore hlaid
    rcases hitems.front with ⟨_, _, _, _, hnil⟩ |
      ⟨nl, ts, nl', tail, a, as, hnl, ha, hnl', rfl, heq, htail⟩
    · cases hnil
    · cases heq
      simp only [List.append_assoc] at hlaid
      obtain ⟨nl₁, us', hnl₁, rfl, ts₁, us', rfl, ha₁, hrest⟩ :=
        h.newlines hnl ha hbefore hlaid
      rcases htail with ⟨p, rfl, rfl⟩ | ⟨p, more', rfl, hmore'⟩
      · obtain ⟨nl₂, us', hnl₂, rfl, hmore⟩ := hrest.newlines_cons hnl' hsemicolon
        exact ⟨nl₁ ++ (ts₁ ++ (nl₂ ++ [(closing, p)])), us', by simp, .last hnl₁ ha₁ hnl₂,
          by simpa using hmore⟩
      · obtain ⟨nl₂, us', hnl₂, rfl, hmore⟩ := hrest.newlines_cons hnl' (by decide)
        obtain ⟨more₁, us', rfl, has₁, hmore⟩ :=
          ih hmore' (not_afterOperand_cons .comma (by decide)) hmore
        exact ⟨nl₁ ++ (ts₁ ++ (nl₂ ++ (.comma, p) :: more₁)), us', by simp,
          .cons hnl₁ ha₁ hnl₂ has₁, by simpa using hmore⟩

end Lists

section Constructs

variable {expr laid : Tokens → Node → Prop} (h : Stays expr laid)

include h

theorem enclosed_lays {closing : Token} (hclosing : closing ≠ .semicolon) :
    Lays (¬ afterOperand ·) (Enclosed expr closing) (Enclosed laid closing) := by
  intro ts n henclosed before more us hbefore hlaid
  cases henclosed with
  | @mk nl ts nl' p n hnl hn hnl' =>
    simp only [List.append_assoc] at hlaid
    obtain ⟨nl₁, us', hnl₁, rfl, ts₁, us', rfl, hn₁, hrest⟩ := h.newlines hnl hn hbefore hlaid
    obtain ⟨nl₂, us', hnl₂, rfl, hmore⟩ := hrest.newlines_cons hnl' hclosing
    exact ⟨nl₁ ++ (ts₁ ++ (nl₂ ++ [(closing, p)])), us', by simp, .mk hnl₁ hn₁ hnl₂,
      by simpa using hmore⟩

omit h in
theorem enclosed_ends {closing : Token} (hclosing : closing.endsOperand) :
    EndsOperand (Enclosed expr closing) := by
  rintro _ _ ⟨-, -, -⟩ before
  simpa [afterOperand] using hclosing

theorem furtherStatement_lays :
    Lays (fun _ => True) (FurtherStatement expr) (FurtherStatement laid) := by
  rintro _ n ⟨hseps, hne, hn⟩ before more us - hlaid
  rw [List.append_assoc] at hlaid
  obtain ⟨seps', us', hseps', hne', rfl, ts', us', rfl, hn', hmore⟩ :=
    h.separators hseps hn (fun hnil => absurd hnil hne) hlaid
  exact ⟨seps' ++ ts', us', by simp, .mk hseps' (hne' hne) hn', by rwa [past_append]⟩

theorem statementList_lays :
    Lays (¬ afterOperand ·) (StatementList expr) (StatementList laid) := by
  intro ts body hlist before more us hbefore hlaid
  cases hlist with
  | empty hseps =>
    obtain ⟨seps', us', rfl, ⟨hseps', -⟩, hmore⟩ :=
      hlaid.run (isSeparator ·) rfl hseps
    exact ⟨seps', us', rfl, .empty hseps', hmore⟩
  | filled hseps hn hns hlast =>
    simp only [List.append_assoc] at hlaid
    obtain ⟨seps₁, us', hseps₁, -, rfl, ts₁, us', rfl, hn₁, hrest⟩ :=
      h.separators hseps hn (fun _ => hbefore) hlaid
    obtain ⟨more₁, us', rfl, hns₁, hrest⟩ :=
      many_lays (furtherStatement_lays h) (fun _ _ _ _ _ => trivial) hns trivial hrest
    obtain ⟨seps₂, us', rfl, ⟨hseps₂, -⟩, hmore⟩ :=
      hrest.run (isSeparator ·) rfl hlast
    exact ⟨seps₁ ++ (ts₁ ++ (more₁ ++ seps₂)), us', by simp, .filled hseps₁ hn₁ hns₁ hseps₂,
      by simpa using hmore⟩

omit h in
theorem StatementList.append_newlines {ts nl : Tokens} {body : List Node}
    (h : StatementList laid ts body) (hnl : Newlines nl) : StatementList laid (ts ++ nl) body := by
  have hnl : Separators nl := fun t ht => by simp [isSeparator, hnl t ht]
  cases h with
  | empty hseps => exact .empty (List.forall_mem_append.2 ⟨hseps, hnl⟩)
  | filled hseps hn hns hlast =>
    simp only [List.append_assoc]
    exact .filled hseps hn hns (List.forall_mem_append.2 ⟨hlast, hnl⟩)

omit h in
theorem block_ends : EndsOperand (Block expr) := by
  rintro _ _ ⟨-⟩ before
  simp [afterOperand, endsOperand]

theorem block_lays : Lays (¬ breaksAfter ·) (Block expr) (Block laid) := by
  intro ts body hblock before more us hbreaks hlaid
  cases hblock with
  | @mk p ts q body hlist =>
    rw [List.cons_append, List.append_assoc] at hlaid
    obtain ⟨us', rfl, hrest⟩ := hlaid.cons_tight (by decide) (by decide) hbreaks
    obtain ⟨ts₁, us', rfl, hlist₁, hrest⟩ :=
      statementList_lays h hlist (not_afterOperand_cons .leftBrace (by decide)) hrest
    obtain ⟨nl, us', hnl, -, rfl, hmore⟩ := hrest.cons (by decide)
    exact ⟨(.leftBrace, p) :: (ts₁ ++ nl ++ [(.rightBrace, q)]), us', by simp,
      .mk (hlist₁.append_newlines hnl), by simpa using hmore⟩

/-- Where an expression is read at once: no operand has just ended, and no line feed can come. -/
def AtOnce (before : List Token) : Prop :=
  ¬ afterOperand before ∧ ¬ breaksAfter before

omit h in
theorem atOnce_cons {before : List Token} (t : Token) (hends : ¬ t.endsOperand)
    (hopen : ¬ t.leavesOpen) (hsign : ¬ (t = .plus ∨ t = .minus)) : AtOnce (t :: before) :=
  ⟨not_afterOperand_cons t hends, not_breaksAfter_cons t hopen hsign⟩

theorem branch_lays : Lays AtOnce (Branch expr) (Branch laid) := by
  rintro _ _ ⟨hcondition, hbody⟩ before more us ⟨hbefore, hbreaks⟩ hlaid
  rw [List.append_assoc] at hlaid
  obtain ⟨ts₁, us', rfl, hcondition₁, hrest⟩ := h.tight hcondition hbefore hbreaks hlaid
  obtain ⟨more₁, us', rfl, hbody₁, hmore⟩ :=
    block_lays h hbody (not_breaksAfter_of_afterOperand ((h hcondition).ends before)) hrest
  exact ⟨ts₁ ++ more₁, us', by simp, .mk hcondition₁ hbody₁, by rwa [past_append]⟩

omit h in
theorem branch_ends : EndsOperand (Branch expr) := by
  rintro _ _ ⟨-, hbody⟩ before
  rw [past_append]
  exact block_ends hbody _

theorem alternatives_lays :
    Lays (fun _ => True) (Alternatives expr) (Alternatives laid) := by
  have helseIf : Lays (fun _ => True) (ElseIf expr) (ElseIf laid) := by
    intro ts branch helseIf before more us _ hlaid
    cases helseIf with
    | @mk nl p q ts branch hnl hbranch =>
      simp only [List.append_assoc, List.cons_append] at hlaid
      obtain ⟨nl₁, us', hnl₁, rfl, hrest⟩ := hlaid.newlines_cons hnl (by decide)
      obtain ⟨us', rfl, hnext⟩ := hrest.cons_tight (by decide) (by decide)
        (not_breaksAfter_cons .kwElse (by decide) (by decide))
      obtain ⟨ts₁, us', rfl, hbranch₁, hmore⟩ :=
        branch_lays h hbranch (atOnce_cons .kwIf (by decide) (by decide) (by decide)) hnext
      exact ⟨nl₁ ++ ((.kwElse, p) :: (.kwIf, q) :: ts₁), us', by simp, .mk hnl₁ hbranch₁,
        by simpa using hmore⟩
  have helse : Lays (fun _ => True) (Else expr) (Else laid) := by
    intro ts otherwise helse before more us _ hlaid
    cases helse with
    | absent => exact ⟨[], us, rfl, .absent, hlaid⟩
    | @present nl p ts body hnl hbody =>
      simp only [List.append_assoc, List.cons_append] at hlaid
      obtain ⟨nl₁, us', hnl₁, rfl, hrest⟩ := hlaid.newlines_cons hnl (by decide)
      obtain ⟨ts₁, us', rfl, hbody₁, hmore⟩ :=
        block_lays h hbody (not_breaksAfter_cons .kwElse (by decide) (by decide)) hrest
      exact ⟨nl₁ ++ ((.kwElse, p) :: ts₁), us', by simp, .present hnl₁ hbody₁,
        by simpa using hmore⟩
  rintro _ _ ⟨hmore, hlast⟩ before rest us - hlaid
  rw [List.append_assoc] at hlaid
  obtain ⟨more₁, us', rfl, hmore₁, hrest⟩ :=
    many_lays helseIf (fun _ _ _ _ _ => trivial) hmore trivial hlaid
  obtain ⟨last₁, us', rfl, hlast₁, hrest⟩ := helse hlast trivial hrest
  exact ⟨more₁ ++ last₁, us', by simp, .mk hmore₁ hlast₁, by rwa [past_append]⟩

omit h in
theorem afterOperand_alternatives {ts : Tokens} {r : List (Node × Node) × Option Node}
    {before : List Token} (hr : Alternatives expr ts r) (hbefore : afterOperand before) :
    afterOperand (past before ts) := by
  obtain ⟨hmore, hlast⟩ := hr
  rw [past_append]
  cases hlast with
  | present _ hbody =>
    simpa using block_ends hbody _
  | absent =>
    induction hmore generalizing before with
    | nil => exact hbefore
    | cons hbranch _ ih =>
      obtain ⟨-, hbranch⟩ := hbranch
      rw [past_append]
      exact ih (by simpa using branch_ends hbranch _)

theorem entry_stays : Stays (Entry expr) (Entry laid) := by
  intro ts entry hentry
  cases hentry with
  | @mk name p q nl ts n hnl hn =>
    constructor
    · intro before
      simpa using (h hn).ends _
    · intro before more us _ hlaid
      simp only [List.cons_append, List.append_assoc] at hlaid
      obtain ⟨nl₁, us', hnl₁, hgap, rfl, hrest⟩ := hlaid.opening (by simp) Bool.false_ne_true
      obtain ⟨us', rfl, hnext⟩ := hrest.cons_tight (by decide) (by decide)
        (not_breaksAfter_of_afterOperand rfl)
      obtain ⟨nl₂, us', hnl₂, rfl, ts₁, us', rfl, hn₁, hmore⟩ :=
        h.newlines hnl hn (not_afterOperand_cons .colon (by decide)) hnext
      exact ⟨nl₁, _, hnl₁, hgap, rfl, (.identifier name, p) :: (.colon, q) :: (nl₂ ++ ts₁), us',
        by simp, .mk hnl₂ hn₁, by simpa using hmore⟩

theorem trailer_lays : Lays (afterOperand ·) (Trailer expr) (Trailer laid) := by
  intro ts suffix htrailer before more us hbefore hlaid
  have hbreaks := not_breaksAfter_of_afterOperand hbefore
  cases htrailer with
  | arguments hitems =>
    obtain ⟨us', rfl, hrest⟩ := hlaid.cons_tight (by decide) (by decide) hbreaks
    exact (items_lays h rfl hitems (not_afterOperand_cons .leftParen (by decide)) hrest).cons
      fun _ => .arguments
  | index hindex =>
    obtain ⟨us', rfl, hrest⟩ := hlaid.cons_tight (by decide) (by decide) hbreaks
    exact (enclosed_lays h (by decide) hindex
      (not_afterOperand_cons .leftBracket (by decide)) hrest).cons fun _ => .index
  | @property p name q =>
    obtain ⟨us', rfl, hrest⟩ := hlaid.cons_tight (by decide) (by decide) hbreaks
    obtain ⟨us', rfl, hmore⟩ := hrest.cons_tight (by simp) Bool.false_ne_true
      (not_breaksAfter_cons .dot (by decide) (by decide))
    exact ⟨[(.dot, p), (.identifier name, q)], us', rfl, .property, hmore⟩

omit h in
theorem trailer_ends : EndsOperand (Trailer expr) := by
  intro ts suffix htrailer before
  cases htrailer with
  | arguments hitems =>
    rw [past_cons]
    exact items_ends _ rfl hitems _
  | index hindex =>
    rw [past_cons]
    exact enclosed_ends rfl hindex _
  | property => rfl

end Constructs

theorem name_pliable (name : String) (p : Position) :
    Pliable [(.identifier name, p)] (· = [(.identifier name, p)]) := by
  refine ⟨fun _ => rfl, fun before more us _ hlaid => ?_⟩
  obtain ⟨nl, us', hnl, hgap, rfl, hmore⟩ := hlaid.opening (by simp) Bool.false_ne_true
  exact ⟨nl, _, hnl, hgap, rfl, [(.identifier name, p)], us', rfl, rfl, hmore⟩

theorem mutName_pliable (name : String) (p q : Position) :
    Pliable [(.kwMut, p), (.identifier name, q)] (· = [(.kwMut, p), (.identifier name, q)]) := by
  refine ⟨fun _ => rfl, fun before more us _ hlaid => ?_⟩
  obtain ⟨nl, us', hnl, hgap, rfl, hrest⟩ := hlaid.opening (by decide) (by decide)
  obtain ⟨us', rfl, hmore⟩ := hrest.cons_tight (by simp) Bool.false_ne_true
    (not_breaksAfter_cons .kwMut (by decide) (by decide))
  exact ⟨nl, _, hnl, hgap, rfl, [(.kwMut, p), (.identifier name, q)], us', rfl, rfl, hmore⟩

theorem param_stays : Stays Param Param := by
  intro ts param hparam
  cases hparam with
  | fixed => exact (name_pliable _ _).mono fun _ heq => heq ▸ .fixed
  | mutable => exact (mutName_pliable _ _ _).mono fun _ heq => heq ▸ .mutable

section Expressions

variable {expr laid : Tokens → Node → Prop} {leaf : String → Position → Node → Prop}
  (h : Stays expr laid)

include h

theorem primary_stays : Stays (Primary expr leaf) (Primary laid leaf) := by
  intro ts n hprimary
  have hopens := hprimary.opens
  constructor
  · intro before
    cases hprimary with
    | parenthesized hinner =>
      rw [past_cons]
      exact enclosed_ends rfl hinner _
    | whileLoop hbranch =>
      rw [past_cons]
      exact branch_ends hbranch _
    | conditional hfirst hrest =>
      rw [past_cons, past_append]
      exact afterOperand_alternatives hrest (branch_ends hfirst _)
    | function _ hbody =>
      rw [past_cons, past_cons, past_append]
      exact block_ends hbody _
    | object hentries =>
      rw [past_cons]
      exact items_ends _ rfl hentries _
    | array hitems =>
      rw [past_cons]
      exact items_ends _ rfl hitems _
    | _ => rfl
  · intro before more us _ hlaid
    obtain ⟨t, p, ts, rfl, ht⟩ := hopens
    have hword : t ≠ .semicolon ∧ ¬ t.belongsBack := by
      cases t <;> simp_all [opensPrimary, belongsBack]
    rw [List.cons_append] at hlaid
    obtain ⟨nl, us', hnl, hgap, rfl, hrest⟩ := hlaid.opening hword.1 hword.2
    refine ⟨nl, _, hnl, hgap, rfl, ?_⟩
    cases hprimary with
    | number => exact ⟨[_], us', rfl, .number, hrest⟩
    | true => exact ⟨[_], us', rfl, .true, hrest⟩
    | false => exact ⟨[_], us', rfl, .false, hrest⟩
    | undefined => exact ⟨[_], us', rfl, .undefined, hrest⟩
    | identifier => exact ⟨[_], us', rfl, .identifier, hrest⟩
    | plain => exact ⟨[_], us', rfl, .plain, hrest⟩
    | template hn => exact ⟨[_], us', rfl, .template hn, hrest⟩
    | parenthesized hinner =>
      exact (enclosed_lays h (by decide) hinner
        (not_afterOperand_cons .leftParen (by decide)) hrest).cons fun _ => .parenthesized
    | whileLoop hbranch =>
      exact (branch_lays h hbranch
        (atOnce_cons .kwWhile (by decide) (by decide) (by decide)) hrest).cons fun _ => .whileLoop
    | conditional hfirst halternatives =>
      rw [List.append_assoc] at hrest
      obtain ⟨ts₁, us', rfl, hfirst₁, hnext⟩ := branch_lays h hfirst
        (atOnce_cons .kwIf (by decide) (by decide) (by decide)) hrest
      obtain ⟨more₁, us', rfl, halternatives₁, hmore⟩ :=
        alternatives_lays h halternatives trivial hnext
      exact ⟨(.kwIf, p) :: (ts₁ ++ more₁), us', by simp, .conditional hfirst₁ halternatives₁,
        by simpa using hmore⟩
    | @function _ q _ _ _ _ hparams hbody =>
      rw [List.cons_append, List.append_assoc] at hrest
      obtain ⟨us', rfl, hnext⟩ := hrest.cons_tight (by decide) (by decide)
        (not_breaksAfter_cons .kwFn (by decide) (by decide))
      obtain ⟨ts₁, us', rfl, hparams₁, hnext⟩ := items_lays param_stays rfl hparams
        (not_afterOperand_cons .leftParen (by decide)) hnext
      obtain ⟨more₁, us', rfl, hbody₁, hmore⟩ := block_lays h hbody
        (not_breaksAfter_of_afterOperand (items_ends _ rfl hparams _)) hnext
      exact ⟨(.kwFn, p) :: (.leftParen, q) :: (ts₁ ++ more₁), us', by simp,
        .function hparams₁ hbody₁, by simpa using hmore⟩
    | object hentries =>
      exact (items_lays (entry_stays h) rfl hentries
        (not_afterOperand_cons .leftBrace (by decide)) hrest).cons fun _ => .object
    | array hitems =>
      exact (items_lays h rfl hitems
        (not_afterOperand_cons .leftBracket (by decide)) hrest).cons fun _ => .array

theorem call_stays : Stays (Call expr leaf) (Call laid leaf) := by
  intro ts n hcall
  cases hcall with
  | bare hprimary => exact (primary_stays h hprimary).mono fun _ => .bare
  | trailed hprimary hsuffixes hne =>
    have hlays := many_lays (trailer_lays h) fun _ _ ht before _ => trailer_ends ht before
    exact (primary_stays h hprimary).append (many_ends trailer_ends hsuffixes) (hlays hsuffixes)
      fun _ _ hprimary hsuffixes => .trailed hprimary hsuffixes hne

end Expressions

/-! ## Operators -/

/-- The tokens of a table of operators end no operand and do not belong back. -/
def Between {α : Type} (operator? : Token → Option α) : Prop :=
  ∀ ⦃t op⦄, operator? t = some op → t ≠ .semicolon ∧ ¬ t.belongsBack ∧ ¬ t.endsOperand

theorem multiplicative_between : Between multiplicativeOperator? := by
  intro t op hop
  cases t <;> simp_all [multiplicativeOperator?, belongsBack, endsOperand]

theorem additive_between : Between additiveOperator? := by
  intro t op hop
  cases t <;> simp_all [additiveOperator?, belongsBack, endsOperand]

theorem comparison_between : Between comparisonOperator? := by
  intro t op hop
  cases t <;> simp_all [comparisonOperator?, belongsBack, endsOperand]

theorem only_between {token : Token}
    (htoken : token ≠ .semicolon ∧ ¬ token.belongsBack ∧ ¬ token.endsOperand) :
    Between (only? token) := by
  intro t op hop
  rw [only?] at hop
  split at hop
  · next heq => rwa [heq]
  · cases hop

section Levels

variable {side laid : Tokens → Node → Prop} (h : Stays side laid)

include h

theorem operand_lays {α : Type} {operator? : Token → Option α} (hbetween : Between operator?) :
    Lays (afterOperand ·) (Operand operator? side) (Operand operator? laid) := by
  intro ts o hoperand before more us hbefore hlaid
  cases hoperand with
  | @mk t p op nl ts n hop hnl hn =>
    obtain ⟨hsemicolon, hback, hends⟩ := hbetween hop
    simp only [List.cons_append, List.append_assoc] at hlaid
    obtain ⟨us', rfl, hrest⟩ :=
      hlaid.cons_tight hsemicolon hback (not_breaksAfter_of_afterOperand hbefore)
    obtain ⟨nl₁, us', hnl₁, rfl, ts₁, us', rfl, hn₁, hmore⟩ :=
      h.newlines hnl hn (not_afterOperand_cons t hends) hrest
    exact ⟨(t, p) :: (nl₁ ++ ts₁), us', by simp, .mk hop hnl₁ hn₁, by simpa using hmore⟩

theorem operand_ends {α : Type} {operator? : Token → Option α} :
    EndsOperand (Operand operator? side) := by
  rintro _ _ ⟨-, -, hn⟩ before
  rw [past_cons, past_append]
  exact (h hn).ends _

theorem chain_stays {α : Type} {operator? : Token → Option α} (hbetween : Between operator?)
    {make : Node → List (α × Node) → NodeKind} :
    Stays (Chain operator? make side) (Chain operator? make laid) := by
  intro ts n hchain
  cases hchain with
  | single hn => exact (h hn).mono fun _ => .single
  | several hfirst hrest hne =>
    have hlays := many_lays (operand_lays h hbetween) fun _ _ ho before _ =>
      operand_ends h ho before
    exact (h hfirst).append (many_ends (operand_ends h) hrest) (hlays hrest)
      fun _ _ hfirst hrest => .several hfirst hrest hne

/-- A sign in front of an operand does not stand where an operand has just ended, so that no line
feed is put in behind it. -/
theorem unary_stays : Stays (Unary side) (Unary laid) := by
  intro ts n hunary
  induction hunary with
  | unsigned hn => exact (h hn).mono fun _ => .unsigned
  | @signed t p op ts n hop _ ih =>
    refine ⟨fun before => by simpa using ih.ends _, fun before more us hbefore hlaid => ?_⟩
    have hsign : t ≠ .semicolon ∧ ¬ t.belongsBack ∧ ¬ t.endsOperand ∧ ¬ t.leavesOpen := by
      cases t <;> simp_all [unaryOperator?, belongsBack, endsOperand, leavesOpen]
    rw [List.cons_append] at hlaid
    obtain ⟨nl, us', hnl, hgap, rfl, hrest⟩ := hlaid.opening hsign.1 hsign.2.1
    have hbreaks : ¬ breaksAfter (t :: before) := by
      simp [breaksAfter, hsign.2.2.2, hbefore]
    obtain ⟨nl', us', -, hgap', rfl, hyields⟩ :=
      ih.lays (not_afterOperand_cons t hsign.2.2.1) hrest
    obtain rfl : nl' = [] := by_contra fun hne => hbreaks (hgap' hne)
    exact ⟨nl, _, hnl, hgap, rfl, hyields.cons fun _ => .signed hop⟩

theorem comparison_stays : Stays (Comparison side) (Comparison laid) := by
  intro ts n hcomparison
  cases hcomparison with
  | single hn => exact (h hn).mono fun _ => .single
  | compared hleft hright =>
    exact (h hleft).append (fun before _ => operand_ends h hright before)
      (operand_lays h comparison_between hright) fun _ _ hleft hright => .compared hleft hright

end Levels

theorem multiplicative_stays {expr laid : Tokens → Node → Prop} (h : Stays expr laid)
    {leaf : String → Position → Node → Prop} :
    Stays (Multiplicative expr leaf) (Multiplicative laid leaf) := by
  rintro ts n ⟨hn⟩
  exact (chain_stays (call_stays h) multiplicative_between hn).mono fun _ => .mk

theorem disjunction_stays {expr laid : Tokens → Node → Prop} (h : Stays expr laid)
    {leaf : String → Position → Node → Prop} :
    Stays (Disjunction expr leaf) (Disjunction laid leaf) := by
  have hsum : Stays (Additive expr leaf) (Additive laid leaf) := by
    rintro ts n ⟨hn⟩
    exact (chain_stays (unary_stays (multiplicative_stays h)) additive_between hn).mono fun _ => .mk
  have hconjunction : Stays (Conjunction expr leaf) (Conjunction laid leaf) := by
    rintro ts n ⟨hn⟩
    exact (chain_stays (comparison_stays hsum) (only_between (by decide)) hn).mono fun _ => .mk
  rintro ts n ⟨hn⟩
  exact (chain_stays hconjunction (only_between (by decide)) hn).mono fun _ => .mk

theorem assigned_pliable {laid : Tokens → Node → Prop} {left nl ts : Tokens} {q : Position}
    {n : Node} {good both : Tokens → Prop} (hleft : Pliable left good) (hnl : Newlines nl)
    (hn : Pliable ts (laid · n))
    (hboth : ∀ left' q' nl' ts', good left' → Newlines nl' → laid ts' n →
      both (left' ++ (.equals, q') :: (nl' ++ ts'))) :
    Pliable (left ++ (.equals, q) :: (nl ++ ts)) both := by
  have h : Stays (fun ts n => Pliable ts (laid · n)) laid := fun _ _ h => h
  have hvalue : Operand (only? .equals) (fun ts n => Pliable ts (laid · n))
      ((.equals, q) :: (nl ++ ts)) ((), n) := .mk rfl hnl hn
  refine hleft.append (fun before _ => operand_ends h hvalue before)
    (operand_lays h (only_between (by decide)) hvalue) fun left' ts' hleft' hvalue' => ?_
  cases hvalue' with
  | @mk t q' _ nl' ts' _ hop hnl' hn' =>
    obtain rfl : t = .equals := by simpa [only?] using hop
    exact hboth left' q' nl' ts' hleft' hnl' hn'

/-- The productions keep it that phrases stay expressions however they are laid out. -/
theorem closed_pliable :
    Closed (fun ts n => Opens opensExpression ts ∧ Pliable ts (Expression · n)) Template where
  opens _ _ h := h.1
  assignment name p q nl ts n hnl h := by
    refine ⟨⟨_, _, _, rfl, rfl⟩, assigned_pliable (name_pliable name p) hnl h.2 ?_⟩
    rintro _ q' nl' ts' rfl hnl' hn'
    exact .assignment hnl' hn'
  declaration name p q r nl ts n hnl h := by
    refine ⟨⟨_, _, _, rfl, rfl⟩,
      assigned_pliable (mutName_pliable name p q) hnl h.2 ?_⟩
    rintro _ q' nl' ts' rfl hnl' hn'
    exact .declaration hnl' hn'
  propertyAssignment left p nl ts target object name n hleft htarget hnl h := by
    refine ⟨(hleft.opens.mono opensExpression_of_opensOperand).append _,
      assigned_pliable (disjunction_stays (fun _ _ h => h.2) hleft) hnl h.2 ?_⟩
    intro left' q' nl' ts' hleft' hnl' hn'
    exact .propertyAssignment hleft' htarget hnl' hn'
  disjunction ts n h := ⟨h.opens.mono opensExpression_of_opensOperand,
    (disjunction_stays (fun _ _ h => h.2) h).mono fun _ => .disjunction⟩
  template raw p parts hparts := by
    refine .mk (hparts.imp fun s n hn => ?_)
    cases hn with
    | text => exact .text
    | code htokens hnl hn hnl' => exact .code htokens hnl hn.2.self hnl'

theorem Expression.of_closed {P : Tokens → Node → Prop} {Q : String → Position → Node → Prop}
    (hclosed : Closed P Q) {ts : Tokens} {n : Node} (h : Expression ts n) : P ts n := by
  have hfits : Fits (fun _ => True) (ts.length + 1) ts :=
    ⟨Nat.lt_succ_self _, fun _ _ _ => trivial⟩
  have hread := Grammar.expression_complete (fun _ _ _ h _ => Template.parse_eq_ok.2 h)
    (ts.length + 1) h hfits (Ends.nil _)
  obtain ⟨used, hused, hn⟩ := Grammar.expression_sound hclosed
    (fun _ _ _ h => Template.parseWithin_sound hclosed _ h) _ hread
  rwa [List.append_cancel_right hused]

theorem expression_stays : Stays Expression Expression :=
  fun _ _ h => (h.of_closed closed_pliable).2

/-- A sign between two operands stands behind the end of one, so that line feeds may follow it. -/
theorem breaksAfter_sign {ts : Tokens} {n : Node} {t : Token}
    (hn : Unary (Multiplicative Expression Template) ts n) (ht : (additiveOperator? t).isSome)
    (before : List Token) : breaksAfter (t :: past before ts) := by
  have hproduct : Stays (Multiplicative Expression Template) (Multiplicative Expression Template) :=
    multiplicative_stays expression_stays
  have hends := (unary_stays hproduct hn).ends before
  cases t <;> simp_all [additiveOperator?, breaksAfter]

end Phrase

/-! ## Programs -/

/-- Line feeds where they have no meaning, and line feeds in place of semicolons, leave a program
its tree. -/
theorem Program.ofTokens_relaid {tokens tokens' : Tokens} {n : Node}
    (h : ofTokens tokens = .ok n) (hlaid : Relaid [] tokens tokens') :
    ofTokens tokens' = .ok n := by
  obtain ⟨body, hlist, rfl⟩ := statementList_of_ofTokens closed_pliable h
  rw [← List.append_nil tokens] at hlaid
  have hfirst : ¬ afterOperand [] := Bool.false_ne_true
  obtain ⟨ts, us, rfl, hlist', hrest⟩ := statementList_lays (fun _ _ h => h.2) hlist hfirst hlaid
  cases hrest with
  | done hnl _ => exact ofTokens_complete (.mk (hlist'.append_newlines hnl))

/-- Line feeds in an assignment with brackets and a sign, and in a conditional after it, wherever
they have no meaning, and one in place of the semicolon. -/
theorem Program.ofTokens_relaid_conditional :
    let feed : Token × Position := (.newline, ⟨9, 9⟩)
    let tokens : Tokens := [(.identifier "a", ⟨1, 1⟩), (.equals, ⟨1, 3⟩), (.leftParen, ⟨1, 5⟩),
      (.number "1", ⟨1, 6⟩), (.minus, ⟨1, 8⟩), (.identifier "b", ⟨1, 10⟩), (.rightParen, ⟨1, 11⟩),
      (.semicolon, ⟨1, 12⟩), (.kwIf, ⟨1, 14⟩), (.identifier "a", ⟨1, 17⟩), (.leftBrace, ⟨1, 19⟩),
      (.rightBrace, ⟨1, 20⟩), (.kwElse, ⟨1, 22⟩), (.leftBrace, ⟨1, 27⟩), (.rightBrace, ⟨1, 28⟩)]
    let tokens' : Tokens := [(.identifier "a", ⟨1, 1⟩), (.equals, ⟨1, 3⟩), feed, feed,
      (.leftParen, ⟨1, 5⟩), feed, (.number "1", ⟨1, 6⟩), (.minus, ⟨1, 8⟩), feed,
      (.identifier "b", ⟨1, 10⟩), feed, (.rightParen, ⟨1, 11⟩), feed, (.kwIf, ⟨1, 14⟩),
      (.identifier "a", ⟨1, 17⟩), (.leftBrace, ⟨1, 19⟩), feed, (.rightBrace, ⟨1, 20⟩), feed,
      (.kwElse, ⟨1, 22⟩), (.leftBrace, ⟨1, 27⟩), feed, (.rightBrace, ⟨1, 28⟩)]
    let difference : Node :=
      ⟨.arithmetic ⟨.number "1", ⟨1, 6⟩⟩ [(.subtract, ⟨.identifier "b", ⟨1, 10⟩⟩)], ⟨1, 6⟩⟩
    let choice : NodeKind :=
      .conditional [(⟨.identifier "a", ⟨1, 17⟩⟩, ⟨.statements [], ⟨1, 19⟩⟩)]
        (some ⟨.statements [], ⟨1, 27⟩⟩)
    let body : List Node := [⟨.assignment false "a" difference, ⟨1, 1⟩⟩, ⟨choice, ⟨1, 14⟩⟩]
    Relaid [] tokens tokens' ∧ ofTokens tokens' = .ok ⟨.statements body, .start⟩ := by
  intro feed tokens tokens' difference choice body
  have htokens : ofTokens tokens = .ok ⟨.statements body, .start⟩ := by rfl
  have hlaid : Relaid [] tokens tokens' :=
    .keep <| .keep <| .insert _ (.inl rfl) <| .insert _ (.inl rfl) <| .keep <|
    .insert _ (.inl rfl) <| .keep <| .keep <| .insert _ (.inl rfl) <| .keep <|
    .insert _ (.inr ⟨_, rfl, rfl⟩) <| .keep <| .separate _ _ <| .keep <| .keep <| .keep <|
    .insert _ (.inl rfl) <| .keep <| .insert _ (.inr ⟨_, rfl, rfl⟩) <| .keep <| .keep <|
    .insert _ (.inl rfl) <| .refl _ _
  exact ⟨hlaid, ofTokens_relaid htokens hlaid⟩

end Scriptlet
