import Scriptlet.Proofs.Syntax.Boundary
import Scriptlet.Proofs.Syntax.Reading
/-!
# What readers have to accept

Every phrase of the grammar is read off the front of any tokens that begin with it, as long as what
follows does not continue it (`Grammar.expression_complete`). The bounds that readers carry are
never reached: a nested expression begins after some token of the one around it, so its phrase is
shorter, and every round of a loop takes at least one token.
-/
namespace Scriptlet

open Phrase

/-- A phrase of fewer than `bound` tokens whose templates satisfy `good`. -/
structure Fits (good : String → Prop) (bound : Nat) (ts : Tokens) : Prop where
  short : ts.length < bound
  templates : ∀ raw p, (Token.template raw, p) ∈ ts → good raw

namespace Fits

variable {good : String → Prop} {bound : Nat} {ts more : Tokens} {t : Token × Position}

theorem left (h : Fits good bound (ts ++ more)) : Fits good bound ts := by
  refine ⟨?_, fun raw p hm => h.templates raw p (List.mem_append_left _ hm)⟩
  have := h.short
  rw [List.length_append] at this
  omega

theorem right (h : Fits good bound (ts ++ more)) : Fits good bound more := by
  refine ⟨?_, fun raw p hm => h.templates raw p (List.mem_append_right _ hm)⟩
  have := h.short
  rw [List.length_append] at this
  omega

theorem tail (h : Fits good (bound + 1) (t :: ts)) : Fits good bound ts := by
  refine ⟨?_, fun raw p hm => h.templates raw p (List.mem_cons_of_mem _ hm)⟩
  have := h.short
  rw [List.length_cons] at this
  omega

theorem rest (h : Fits good bound (t :: ts)) : Fits good bound ts :=
  right (show Fits good bound ([t] ++ ts) from h)

end Fits

namespace Parser

variable {α : Type}

/-- Phrases that fit are read off, up to tokens that end them. -/
def Complete (m : Parser α) (phrase : Tokens → α → Prop) (fits ends : Tokens → Prop) : Prop :=
  ∀ ⦃ts a⦄, phrase ts a → fits ts → ∀ ⦃rest⦄, ends rest → m (ts ++ rest) = .ok (a, rest)

theorem Complete.mono {m : Parser α} {phrase wider : Tokens → α → Prop}
    {fits ends : Tokens → Prop} (h : Complete m phrase fits ends)
    (hw : ∀ ⦃ts a⦄, wider ts a → phrase ts a) : Complete m wider fits ends :=
  fun _ _ ha => h (hw ha)

theorem dropNewlines_append {nl : Tokens} (hnl : Newlines nl) (ts : Tokens) :
    dropNewlines (nl ++ ts) = dropNewlines ts := by
  induction nl with
  | nil => rfl
  | cons t nl ih =>
    have ht : t.1 = .newline := hnl t (by simp)
    rw [dropNewlines, List.cons_append, List.dropWhile_cons_of_pos (by simpa using ht)]
    exact ih fun u hu => hnl u (by simp [hu])

theorem dropNewlines_cons {t : Token} (ht : t ≠ .newline) (p : Position) (ts : Tokens) :
    dropNewlines ((t, p) :: ts) = (t, p) :: ts :=
  List.dropWhile_cons_of_neg (by simpa using ht)

theorem dropNewlines_opens {ts : Tokens} (h : Opens opensExpression ts) :
    dropNewlines ts = ts := by
  obtain ⟨t, p, us, rfl, ht⟩ := h
  apply dropNewlines_cons
  rintro rfl
  cases ht

theorem many_stops {step : Parser (Option α)} {rest : Tokens} (h : step rest = .ok (none, rest)) :
    many step rest = .ok ([], rest) := by
  rw [many, get_bind]
  cases rest.length with
  | zero => rfl
  | succ k =>
    rw [repeated, bind_of_ok h]
    rfl

theorem many_complete {step : Parser (Option α)} {item : Tokens → α → Prop}
    {good : String → Prop} {bound : Nat} {ends : Tokens → Prop}
    (hstep : ∀ ⦃ts a⦄, item ts a → Fits good bound ts → ∀ ⦃rest⦄, ends rest →
      step (ts ++ rest) = .ok (some a, rest))
    (hne : ∀ ⦃ts a⦄, item ts a → ts ≠ [])
    (hnext : ∀ ⦃ts a⦄, item ts a → ∀ rest, ends (ts ++ rest)) :
    Complete (many step) (Many item) (Fits good bound)
      fun rest => ends rest ∧ step rest = .ok (none, rest) := by
  intro ts as h hfits rest hrest
  have rounds : ∀ k, ts.length ≤ k → repeated step k (ts ++ rest) = .ok (as, rest) := by
    induction h with
    | nil =>
      intro k _
      cases k with
      | zero => rfl
      | succ k =>
        rw [repeated, List.nil_append, bind_of_ok hrest.2]
        rfl
    | @cons us more a as ha hmore ih =>
      intro k hk
      have hpos := List.length_pos_of_ne_nil (hne ha)
      rw [List.length_append] at hk
      obtain ⟨k, rfl⟩ := Nat.exists_eq_add_of_le' (show 1 ≤ k by omega)
      have hends : ends (more ++ rest) := by
        cases hmore with
        | nil => exact hrest.1
        | cons hb _ =>
          rw [List.append_assoc]
          exact hnext hb _
      rw [repeated, List.append_assoc, bind_of_ok (hstep ha hfits.left hends)]
      dsimp only
      rw [bind_of_ok (ih hfits.right k (by omega))]
      rfl
  rw [many, get_bind]
  apply rounds
  rw [List.length_append]
  omega

end Parser

namespace Phrase

open Scriptlet.Grammar Scriptlet.Parser

theorem Ends.newlines {continuing : Token → Bool} {nl rest : Tokens} (hnl : Newlines nl)
    (hc : continuing .newline = false) (h : Ends continuing rest) :
    Ends continuing (nl ++ rest) := by
  constructor
  · cases nl with
    | nil => exact h.stops
    | cons t nl =>
      intro u hu
      cases hu
      rw [hnl t (by simp)]
      exact hc
  · rw [dropNewlines_append hnl]
    exact h.notElse

/-- The tokens that close a list or an enclosed expression. -/
def closes : Token → Bool
  | .rightParen | .rightBracket | .rightBrace => true
  | _ => false

theorem closes_iff {t : Token} :
    closes t ↔ t = .rightParen ∨ t = .rightBracket ∨ t = .rightBrace := by
  cases t <;> simp [closes]

theorem Ends.of_closes {closing : Token} (h : closes closing) (p : Position) (rest : Tokens) :
    Ends continuesExpression ((closing, p) :: rest) := by
  rcases closes_iff.1 h with rfl | rfl | rfl <;>
    exact .of_cons rfl (by decide) (by decide) p rest

theorem ne_newline_of_closes {closing : Token} (h : closes closing) : closing ≠ .newline := by
  rintro rfl
  cases h

theorem not_opensExpression_of_closes {closing : Token} (h : closes closing) :
    opensExpression closing = false := by
  rcases closes_iff.1 h with rfl | rfl | rfl <;> rfl

/-- A list seen from its front: it is over, or it begins with an item, after which it is over or
goes on behind a comma. -/
theorem Items.front {α : Type} {item : Tokens → α → Prop} {closing : Token} {ts : Tokens}
    {as : List α} (h : Items item closing ts as) :
    (∃ nl p, Newlines nl ∧ ts = nl ++ [(closing, p)] ∧ as = []) ∨
      ∃ nl us nl' tail a as', Newlines nl ∧ item us a ∧ Newlines nl' ∧
        ts = nl ++ (us ++ (nl' ++ tail)) ∧ as = a :: as' ∧
        ((∃ p, tail = [(closing, p)] ∧ as' = []) ∨
          ∃ p more, tail = (.comma, p) :: more ∧ Items item closing more as') := by
  cases h with
  | empty hnl => exact .inl ⟨_, _, hnl, rfl, rfl⟩
  | @filled nl us nl' more trail p a as' hnl ha hnl' hmore htrail =>
    refine .inr ⟨nl, us, nl', _, a, as', hnl, ha, hnl', rfl, rfl, ?_⟩
    cases hmore with
    | nil =>
      cases htrail with
      | absent => exact .inl ⟨p, rfl, rfl⟩
      | @present q _ hlast => exact .inr ⟨q, _, rfl, .empty hlast⟩
    | cons hitem hmore =>
      cases hitem with
      | @mk q _ _ _ _ hsecond hb hthird =>
        refine .inr ⟨q, _, ?_, .filled (p := p) hsecond hb hthird hmore htrail⟩
        simp

end Phrase

namespace Parser

variable {α : Type}

theorem itemsUntil_complete {item : Parser α} {phrase : Tokens → α → Prop}
    {good : String → Prop} {bound : Nat} {closing : Token}
    (h : Complete item phrase (Fits good bound) (Ends continuesExpression))
    (hopens : ∀ ⦃ts a⦄, phrase ts a → Opens opensExpression ts) (hclosing : closes closing) :
    ∀ (k : Nat) ⦃ts : Tokens⦄ ⦃as : List α⦄, Items phrase closing ts as → Fits good bound ts →
      ts.length ≤ k → ∀ rest, itemsUntil item closing k (ts ++ rest) = .ok (as, rest) := by
  intro k
  induction k with
  | zero =>
    intro ts as hitems _ hk rest
    cases hitems <;> simp at hk
  | succ k ih =>
    intro ts as hitems hfits hk rest
    rw [itemsUntil, skipNewlines_bind, peek_bind]
    rcases hitems.front with ⟨nl, p, hnl, rfl, rfl⟩ |
        ⟨nl, us, nl', tail, a, as', hnl, ha, hnl', rfl, rfl, htail⟩
    · have hdrop : dropNewlines (nl ++ [(closing, p)] ++ rest) = (closing, p) :: rest := by
        rw [List.append_assoc, dropNewlines_append hnl]
        exact dropNewlines_cons (ne_newline_of_closes hclosing) p rest
      rw [hdrop, List.head?_cons, Option.map_some, if_pos rfl]
      rfl
    · have hus : Opens opensExpression us := hopens ha
      have hdrop : dropNewlines (nl ++ (us ++ (nl' ++ tail)) ++ rest) =
          us ++ (nl' ++ (tail ++ rest)) := by
        simp only [List.append_assoc]
        rw [dropNewlines_append hnl, dropNewlines_opens (hus.append _)]
      rw [hdrop]
      have hfirst : ¬ (us ++ (nl' ++ (tail ++ rest))).head?.map (·.1) = some closing := by
        obtain ⟨t, p, vs, rfl, ht⟩ := hus
        rintro hc
        cases hc
        rw [not_opensExpression_of_closes hclosing] at ht
        cases ht
      rw [if_neg hfirst]
      have hitem : Fits good bound us := hfits.right.left
      rcases htail with ⟨p, rfl, rfl⟩ | ⟨p, more, rfl, hmore⟩
      · have hends : Ends continuesExpression (nl' ++ ([(closing, p)] ++ rest)) :=
          .newlines hnl' rfl (.of_closes hclosing p rest)
        rw [bind_of_ok (h ha hitem hends), skipNewlines_bind, dropNewlines_append hnl']
        rw [List.cons_append, dropNewlines_cons (ne_newline_of_closes hclosing)]
        rw [bind_of_ok (next_eq_ok.2 rfl)]
        have hcomma : closing ≠ .comma := by
          rintro rfl
          cases hclosing
        dsimp only
        rw [if_neg hcomma, if_pos rfl]
        rfl
      · have hends : Ends continuesExpression (nl' ++ ((.comma, p) :: more ++ rest)) :=
          .newlines hnl' rfl (.of_cons rfl (by decide) (by decide) p _)
        rw [bind_of_ok (h ha hitem hends), skipNewlines_bind, dropNewlines_append hnl']
        rw [List.cons_append, dropNewlines_cons (by decide), bind_of_ok (next_eq_ok.2 rfl)]
        dsimp only
        have hshort : more.length ≤ k := by
          simp only [List.length_append, List.length_cons] at hk
          omega
        rw [if_pos rfl, bind_of_ok (ih hmore hfits.right.right.right.rest hshort rest)]
        rfl

theorem commaList_complete {item : Parser α} {phrase : Tokens → α → Prop}
    {good : String → Prop} {bound : Nat} {closing : Token}
    (h : Complete item phrase (Fits good bound) (Ends continuesExpression))
    (hopens : ∀ ⦃ts a⦄, phrase ts a → Opens opensExpression ts) (hclosing : closes closing) :
    Complete (commaList item closing) (Items phrase closing) (Fits good bound) fun _ => True := by
  intro ts as hitems hfits rest _
  rw [commaList, get_bind]
  apply itemsUntil_complete h hopens hclosing _ hitems hfits
  rw [List.length_append]
  omega

end Parser

namespace Phrase

open Scriptlet.Grammar Scriptlet.Parser

/-- Statements seen from their front: there are none, or there is a first one, and what follows it
begins with a separator or is empty. -/
theorem StatementList.front {expr : Tokens → Node → Prop} {ts : Tokens} {ns : List Node}
    (h : StatementList expr ts ns) :
    (Separators ts ∧ ns = []) ∨
      ∃ seps us more n ns', Separators seps ∧ expr us n ∧ StatementList expr more ns' ∧
        (∀ t ∈ more.head?, isSeparator t.1) ∧ ts = seps ++ (us ++ more) ∧ ns = n :: ns' := by
  cases h with
  | empty hseps => exact .inl ⟨hseps, rfl⟩
  | @filled seps us more last n ns' hseps hn hmore hlast =>
    refine .inr ⟨seps, us, _, n, ns', hseps, hn, ?_, ?_, rfl, rfl⟩
    · cases hmore with
      | nil => exact .empty hlast
      | cons hfurther hmore =>
        cases hfurther with
        | mk hseps' _ hn' =>
          rw [List.append_assoc, List.append_assoc]
          exact .filled hseps' hn' hmore hlast
    · cases hmore with
      | nil =>
        intro t ht
        exact hlast t (List.mem_of_mem_head? ht)
      | cons hfurther hmore =>
        cases hfurther with
        | @mk seps' _ _ hseps' hne _ =>
          intro t ht
          cases seps' with
          | nil => exact absurd rfl hne
          | cons u seps' =>
            cases ht
            exact hseps' t (by simp)

/-- Where statements may end: at the end of the tokens or before a closing brace. -/
def EndsStatements (rest : Tokens) : Prop :=
  ∀ t ∈ rest.head?, t.1 = .rightBrace

theorem dropWhile_separators {seps ts : Tokens} (h : Separators seps) :
    (seps ++ ts).dropWhile (isSeparator ·.1) = ts.dropWhile (isSeparator ·.1) := by
  rw [List.dropWhile_append_of_pos h]

theorem not_separator_of_opens {t : Token} (h : opensExpression t) : isSeparator t = false := by
  cases hs : isSeparator t with
  | false => rfl
  | true =>
    simp only [isSeparator, Bool.or_eq_true, decide_eq_true_eq] at hs
    rcases hs with rfl | rfl <;> cases h

theorem notElse_separators {seps ts : Tokens} (hseps : Separators seps)
    (hts : ∀ t ∈ (dropNewlines ts).head?, t.1 ≠ .kwElse) :
    ∀ t ∈ (dropNewlines (seps ++ ts)).head?, t.1 ≠ .kwElse := by
  induction seps with
  | nil => exact hts
  | cons u seps ih =>
    have hrest := ih fun t ht => hseps t (by simp [ht])
    obtain ⟨u, p⟩ := u
    have hu : isSeparator u := hseps (u, p) (by simp)
    by_cases hnl : u = .newline
    · subst hnl
      exact hrest
    · rw [List.cons_append, dropNewlines_cons hnl]
      intro t ht
      cases ht
      rintro rfl
      cases hu

theorem StatementList.notElse {expr : Tokens → Node → Prop} {ts rest : Tokens} {ns : List Node}
    (h : StatementList expr ts ns) (hopens : ∀ ⦃ts n⦄, expr ts n → Opens opensExpression ts)
    (hrest : EndsStatements rest) : ∀ t ∈ (dropNewlines (ts ++ rest)).head?, t.1 ≠ .kwElse := by
  cases h with
  | empty hseps =>
    apply notElse_separators hseps
    cases rest with
    | nil =>
      intro t ht
      cases ht
    | cons u rest =>
      obtain ⟨u, p⟩ := u
      have hu : u = .rightBrace := hrest (u, p) rfl
      subst hu
      intro t ht
      cases ht
      show Token.rightBrace ≠ Token.kwElse
      decide
  | @filled seps us more last n ns hseps hn _ _ =>
    rw [List.append_assoc]
    apply notElse_separators hseps
    have hus := hopens hn
    rw [dropNewlines_opens ((hus.append _).append _)]
    obtain ⟨t, p, vs, rfl, ht⟩ := hus
    intro u hu
    cases hu
    rintro rfl
    cases ht

theorem StatementList.eq_nil_of_nil {expr : Tokens → Node → Prop} {ns : List Node}
    (h : StatementList expr [] ns) (hopens : ∀ ⦃ts n⦄, expr ts n → Opens opensExpression ts) :
    ns = [] := by
  rcases h.front with ⟨-, hnil⟩ | ⟨seps, us, more, n, ns', -, hn, -, -, heq, -⟩
  · exact hnil
  · rw [eq_comm, List.append_eq_nil_iff, List.append_eq_nil_iff] at heq
    exact absurd heq.2.1 (hopens hn).ne_nil

theorem EndsStatements.stops {more rest : Tokens} (hrest : EndsStatements rest)
    (hhead : ∀ t ∈ more.head?, isSeparator t.1) :
    ∀ t ∈ (more ++ rest).head?, t.1 = .rightBrace ∨ isSeparator t.1 := by
  cases more with
  | nil => exact fun t ht => .inl (hrest t ht)
  | cons u more =>
    intro t ht
    cases ht
    exact .inr (hhead u rfl)

theorem ends_of_stops {rest : Tokens}
    (hstops : ∀ t ∈ rest.head?, t.1 = .rightBrace ∨ isSeparator t.1)
    (helse : ∀ t ∈ (dropNewlines rest).head?, t.1 ≠ .kwElse) : Ends continuesExpression rest := by
  refine ⟨fun t ht => ?_, helse⟩
  rcases hstops t ht with ht | ht
  · rw [ht]
    rfl
  · simp only [isSeparator, Bool.or_eq_true, decide_eq_true_eq] at ht
    rcases ht with ht | ht <;> rw [ht] <;> rfl

end Phrase

namespace Grammar

open Scriptlet.Parser

section Constructs

variable {expr : Parser Node} {phrase : Tokens → Node → Prop} {good : String → Prop} {bound : Nat}

theorem elseWord_of_else {nl : Tokens} (hnl : Newlines nl) (p : Position) (rest : Tokens) :
    elseWord (nl ++ ((.kwElse, p) :: rest)) = .ok (true, rest) := by
  rw [elseWord, get_bind, dropNewlines_append hnl, dropNewlines_cons (by decide)]
  rfl

theorem elseWord_of_ends {continuing : Token → Bool} {rest : Tokens}
    (h : Ends continuing rest) : elseWord rest = .ok (false, rest) := by
  rw [elseWord, get_bind]
  cases hdrop : dropNewlines rest with
  | nil => rfl
  | cons t more =>
    obtain ⟨t, p⟩ := t
    have ht : t ≠ .kwElse := h.notElse (t, p) (by rw [hdrop]; rfl)
    cases t <;> first | rfl | exact absurd rfl ht

theorem parameter_complete :
    Complete parameter Param (Fits good bound) (Ends continuesExpression) := by
  intro ts param hparam _ rest _
  cases hparam with
  | fixed =>
    rw [parameter, List.singleton_append, peek_bind, if_neg (by simp)]
    rw [bind_of_ok (identifier_eq_ok.2 ⟨_, rfl⟩)]
    rfl
  | mutable =>
    rw [parameter, List.cons_append, peek_bind, List.head?_cons, Option.map_some, if_pos rfl]
    rw [bind_of_ok ((discard_eq_ok (u := ())).2 ⟨_, next_eq_ok.2 rfl⟩), List.singleton_append]
    rw [bind_of_ok (identifier_eq_ok.2 ⟨_, rfl⟩)]
    rfl

theorem suffix_stops {rest : Tokens} (hrest : Ends opensTrailer rest) :
    suffix expr rest = .ok (none, rest) := by
  cases rest with
  | nil => rfl
  | cons t rest =>
    obtain ⟨t, p⟩ := t
    have ht := hrest.stops (t, p) rfl
    cases t <;> first | rfl | cases ht

theorem statementsWithin_of_separators {seps rest : Tokens} (hseps : Separators seps)
    (hrest : EndsStatements rest) (k : Nat) :
    statementsWithin expr (k + 1) (seps ++ rest) = .ok ([], rest) := by
  have hdrop : (seps ++ rest).dropWhile (isSeparator ·.1) = rest := by
    rw [dropWhile_separators hseps]
    cases rest with
    | nil => rfl
    | cons t rest =>
      apply List.dropWhile_cons_of_neg
      rw [hrest t rfl]
      decide
  rw [statementsWithin, modify_bind, peek_bind, hdrop, if_pos]
  · rfl
  · cases rest with
    | nil => rfl
    | cons t rest => simp [hrest t rfl]

variable (h : Complete expr phrase (Fits good bound) (Ends continuesExpression))
  (hopens : ∀ ⦃ts n⦄, phrase ts n → Opens opensExpression ts)

include h hopens

theorem statementsWithin_complete :
    ∀ (k : Nat) ⦃ts : Tokens⦄ ⦃ns : List Node⦄, StatementList phrase ts ns →
      Fits good bound ts → ts.length < k → ∀ ⦃rest⦄, EndsStatements rest →
      statementsWithin expr k (ts ++ rest) = .ok (ns, rest) := by
  intro k
  induction k with
  | zero =>
    intro ts ns _ _ hk
    omega
  | succ k ih =>
    intro ts ns hlist hfits hk rest hrest
    rcases hlist.front with ⟨hseps, rfl⟩ |
        ⟨seps, us, more, n, ns', hseps, hn, hmore, hhead, rfl, rfl⟩
    · exact statementsWithin_of_separators hseps hrest k
    · have hus : Opens opensExpression us := hopens hn
      have hdrop : (seps ++ (us ++ more) ++ rest).dropWhile (isSeparator ·.1) =
          us ++ (more ++ rest) := by
        rw [List.append_assoc, dropWhile_separators hseps, List.append_assoc]
        obtain ⟨t, p, vs, rfl, ht⟩ := hus
        exact List.dropWhile_cons_of_neg (by simp [not_separator_of_opens ht])
      have hfirst : ¬ (decide ((us ++ (more ++ rest)).head?.map (·.1) = none) ||
          decide ((us ++ (more ++ rest)).head?.map (·.1) = some .rightBrace)) = true := by
        obtain ⟨t, p, vs, rfl, ht⟩ := hus
        have : t ≠ .rightBrace := by
          rintro rfl
          cases ht
        simpa using this
      have hstops := hrest.stops hhead
      have hends := ends_of_stops hstops (hmore.notElse hopens hrest)
      rw [statementsWithin, modify_bind, peek_bind, hdrop, if_neg hfirst]
      rw [bind_of_ok (h hn hfits.right.left hends), get_bind]
      have hshort : more.length < k := by
        have := List.length_pos_of_ne_nil hus.ne_nil
        simp only [List.length_append] at hk
        omega
      have htail := ih hmore hfits.right.right hshort hrest
      cases hmid : more ++ rest with
      | nil =>
        obtain ⟨rfl, rfl⟩ := List.append_eq_nil_iff.1 hmid
        rw [hmore.eq_nil_of_nil hopens]
        rfl
      | cons t mid =>
        obtain ⟨t, p⟩ := t
        have hstop := hstops (t, p) (by rw [hmid]; rfl)
        dsimp only
        rw [if_pos (by simpa using hstop), ← hmid, bind_of_ok htail]
        rfl

theorem block_complete :
    Complete (block expr) (Block phrase) (Fits good bound) fun _ => True := by
  intro ts n hblock hfits rest _
  cases hblock with
  | @mk p ts q body hlist =>
    have hends : EndsStatements ((.rightBrace, q) :: rest) := by
      intro t ht
      cases ht
      rfl
    rw [block, List.cons_append, bind_of_ok (expect_eq_ok.2 rfl)]
    have hbody : statements expr p (ts ++ ((.rightBrace, q) :: rest)) =
        .ok (⟨.statements body, p⟩, (.rightBrace, q) :: rest) := by
      rw [statements, get_bind, bind_of_ok (statementsWithin_complete h hopens _ hlist
        hfits.rest.left (by rw [List.length_append]; omega) hends)]
      rfl
    rw [List.append_assoc, List.singleton_append, bind_of_ok hbody]
    rw [bind_of_ok ((discard_eq_ok (u := ())).2 ⟨q, expect_eq_ok.2 rfl⟩)]
    rfl

theorem branch_complete :
    Complete (branch expr) (Branch phrase) (Fits good bound) fun _ => True := by
  intro ts r hbranch hfits rest hrest
  cases hbranch with
  | @mk us more condition body hcondition hbody =>
    have hends : Ends continuesExpression (more ++ rest) := by
      cases hbody
      exact .of_cons rfl (by decide) (by decide) _ _
    rw [branch, List.append_assoc, bind_of_ok (h hcondition hfits.left hends)]
    rw [bind_of_ok (block_complete h hopens hbody hfits.right hrest)]
    rfl

theorem alternatives_complete {continuing : Token → Bool}
    {ts rest : Tokens} {r : List (Node × Node) × Option Node} (halts : Alternatives phrase ts r)
    (hfits : Fits good bound ts) (hrest : Ends continuing rest) :
    ∀ k, ts.length ≤ k → alternatives expr k (ts ++ rest) = .ok (r, rest) := by
  cases halts with
  | @mk more last branches otherwise hmore hlast =>
    induction hmore with
    | nil =>
      intro k hk
      cases hlast with
      | absent =>
        cases k with
        | zero => rfl
        | succ k =>
          rw [alternatives, List.append_nil, List.nil_append, bind_of_ok (elseWord_of_ends hrest)]
          rfl
      | @present nl p us body hnl hbody =>
        simp only [List.nil_append, List.length_append, List.length_cons] at hk
        obtain ⟨k, rfl⟩ := Nat.exists_eq_add_of_le' (show 1 ≤ k by omega)
        rw [alternatives, List.nil_append, List.append_assoc, List.cons_append]
        rw [bind_of_ok (elseWord_of_else hnl p _), if_pos rfl, peek_bind, if_neg]
        · rw [bind_of_ok (block_complete h hopens hbody hfits.right.right.rest trivial)]
          rfl
        · cases hbody
          simp
    | @cons us more branch branches helse hmore ih =>
      intro k hk
      cases helse with
      | @mk nl p q vs _ hnl hbranch =>
        simp only [List.length_append, List.length_cons] at hk
        obtain ⟨k, rfl⟩ := Nat.exists_eq_add_of_le' (show 1 ≤ k by omega)
        have hvs : Fits good bound vs := hfits.left.left.right.rest.rest
        have hmore' : Fits good bound (more ++ last) := by
          rw [List.append_assoc] at hfits
          exact hfits.right
        have htail := ih hmore' k (by rw [List.length_append]; omega)
        simp only [List.append_assoc, List.cons_append]
        rw [alternatives, bind_of_ok (elseWord_of_else hnl p _), if_pos rfl, peek_bind]
        rw [List.head?_cons, Option.map_some, if_pos rfl]
        rw [bind_of_ok ((discard_eq_ok (u := ())).2 ⟨_, next_eq_ok.2 rfl⟩)]
        rw [bind_of_ok (branch_complete h hopens hbranch hvs trivial)]
        rw [List.append_assoc] at htail
        rw [bind_of_ok htail]
        rfl

theorem property_complete :
    Complete (property expr) (Entry phrase) (Fits good bound) (Ends continuesExpression) := by
  intro ts entry hentry hfits rest hrest
  cases hentry with
  | @mk name p q nl us n hnl hn =>
    simp only [List.cons_append, List.append_assoc]
    rw [property, bind_of_ok (identifier_eq_ok.2 ⟨_, rfl⟩)]
    rw [bind_of_ok ((discard_eq_ok (u := ())).2 ⟨_, expect_eq_ok.2 rfl⟩), skipNewlines_bind]
    rw [dropNewlines_append hnl, dropNewlines_opens ((hopens hn).append _)]
    rw [bind_of_ok (h hn hfits.rest.rest.right hrest)]
    rfl

theorem enclosed_complete {closing : Token} {expected : Expectation} (hclosing : closes closing) :
    Complete (enclosed expr closing expected) (Enclosed phrase closing) (Fits good bound)
      fun _ => True := by
  intro ts n henclosed hfits rest _
  cases henclosed with
  | @mk nl us nl' p n hnl hn hnl' =>
    have hends : Ends continuesExpression (nl' ++ ((closing, p) :: rest)) :=
      .newlines hnl' rfl (.of_closes hclosing p rest)
    simp only [List.append_assoc, List.singleton_append]
    rw [enclosed, skipNewlines_bind, dropNewlines_append hnl]
    rw [dropNewlines_opens ((hopens hn).append _)]
    rw [bind_of_ok (h hn hfits.right.left hends), skipNewlines_bind, dropNewlines_append hnl']
    rw [dropNewlines_cons (ne_newline_of_closes hclosing)]
    rw [bind_of_ok ((discard_eq_ok (u := ())).2 ⟨_, expect_eq_ok.2 rfl⟩)]
    rfl

theorem suffix_complete {ts : Tokens} {s : Suffix}
    (hs : Trailer phrase ts s) (hfits : Fits good (bound + 1) ts) (rest : Tokens) :
    suffix expr (ts ++ rest) = .ok (some s, rest) := by
  cases hs with
  | @arguments p us items hitems =>
    rw [suffix, List.cons_append, get_bind]
    dsimp only
    rw [set_bind, bind_of_ok (commaList_complete h hopens rfl hitems hfits.tail trivial)]
    rfl
  | @index p us n hn =>
    rw [suffix, List.cons_append, get_bind]
    dsimp only
    rw [set_bind, bind_of_ok (enclosed_complete h hopens rfl hn hfits.tail trivial)]
    rfl
  | property => rfl

end Constructs

section Operators

variable {α : Type} {operator? : Token → Option α} {side : Parser Node}
  {phrase : Tokens → Node → Prop} {fits : Tokens → Prop}

theorem operand_stops {tighter : Token → Bool} {rest : Tokens}
    (hrest : Ends (orOperator tighter operator?) rest) :
    operand operator? side rest = .ok (none, rest) := by
  have hop : (rest.head?.map (·.1)).bind operator? = none := by
    cases rest with
    | nil => rfl
    | cons t rest =>
      have ht := hrest.stops t rfl
      simp only [orOperator, Bool.or_eq_false_iff] at ht
      simpa using ht.2
  have hnone : operator operator? rest = .ok (none, rest) := by
    rw [operator, peek_bind, hop]
    rfl
  rw [operand, bind_of_ok hnone]
  rfl

theorem operand_complete {continuing : Token → Bool} {good : String → Prop} {bound : Nat}
    (h : Complete side phrase (Fits good bound) (Ends continuing))
    (hopens : ∀ ⦃ts n⦄, phrase ts n → Opens opensExpression ts) {ts rest : Tokens}
    {o : α × Node} (ho : Operand operator? phrase ts o) (hfits : Fits good bound ts)
    (hrest : Ends continuing rest) : operand operator? side (ts ++ rest) = .ok (some o, rest) := by
  cases ho with
  | @mk t p op nl us n hop hnl hn =>
    have hread : operator operator? ((t, p) :: (nl ++ (us ++ rest))) =
        .ok (some op, us ++ rest) := by
      rw [operator, peek_bind]
      simp only [List.head?_cons, Option.map_some, Option.bind_some, hop]
      rw [bind_of_ok ((discard_eq_ok (u := ())).2 ⟨_, next_eq_ok.2 rfl⟩), skipNewlines_bind]
      rw [dropNewlines_append hnl, dropNewlines_opens ((hopens hn).append _)]
      rfl
    simp only [List.cons_append, List.append_assoc]
    rw [operand, bind_of_ok hread]
    dsimp only
    rw [bind_of_ok (h hn hfits.rest.right hrest)]
    rfl

theorem chain_complete {make : Node → List (α × Node) → NodeKind} {tighter : Token → Bool}
    {good : String → Prop} {bound : Nat}
    (h : Complete side phrase (Fits good bound) (Ends tighter))
    (hopens : ∀ ⦃ts n⦄, phrase ts n → Opens opensExpression ts)
    (hsep : Separates operator? tighter) :
    Complete (chain operator? make side) (Chain operator? make phrase) (Fits good bound)
      (Ends (orOperator tighter operator?)) := by
  intro ts n hchain hfits rest hrest
  have hnext : ∀ ⦃ts o⦄, Operand operator? phrase ts o → ∀ rest, Ends tighter (ts ++ rest) := by
    intro ts o ho rest
    obtain ⟨t, p, us, rfl, ht⟩ := ho.head
    obtain ⟨hc, hn, he⟩ := hsep ht
    exact .of_cons hc hn he p _
  have hne : ∀ ⦃ts o⦄, Operand operator? phrase ts o → ts ≠ [] := by
    intro ts o ho
    obtain ⟨t, p, us, rfl, -⟩ := ho.head
    exact List.cons_ne_nil _ _
  have hmany := many_complete (fun ts o ho hf rest hr => operand_complete h hopens ho hf hr)
    hne hnext
  have hstop : operand operator? side rest = .ok (none, rest) := operand_stops hrest
  cases hchain with
  | single hn =>
    rw [chain, bind_of_ok (h hn hfits hrest.tighter), bind_of_ok (many_stops hstop)]
    rfl
  | @several us more first operands hfirst hmore hsome =>
    have hends : Ends tighter (more ++ rest) := by
      cases hmore with
      | nil => exact absurd rfl hsome
      | cons ho _ =>
        rw [List.append_assoc]
        exact hnext ho _
    rw [chain, List.append_assoc, bind_of_ok (h hfirst hfits.left hends)]
    rw [bind_of_ok (hmany hmore hfits.right ⟨hrest.tighter, hstop⟩)]
    cases operands with
    | nil => exact absurd rfl hsome
    | cons o operands => rfl

end Operators

section Levels

variable {expr : Parser Node} {phrase : Tokens → Node → Prop}
  {template : String → Position → Except SyntaxError Node}
  {leaf : String → Position → Node → Prop} {good : String → Prop} {bound : Nat}

theorem sign_of_isSign {ts : Tokens} {s : UnaryOperator × Position} (h : IsSign ts s)
    (rest : Tokens) : sign (ts ++ rest) = .ok (some s, rest) := by
  obtain ⟨t, ht, rfl⟩ := h
  rw [sign, List.singleton_append, get_bind]
  simp only [ht]
  rfl

theorem sign_stops {ts : Tokens} (h : Opens opensPrimary ts) : sign ts = .ok (none, ts) := by
  obtain ⟨t, p, us, rfl, ht⟩ := h
  cases t <;> first | rfl | cases ht

variable (h : Complete expr phrase (Fits good bound) (Ends continuesExpression))
  (hopens : ∀ ⦃ts n⦄, phrase ts n → Opens opensExpression ts)
  (hleaf : ∀ ⦃raw p n⦄, leaf raw p n → good raw → template raw p = .ok n)

include h hopens hleaf

theorem primary_complete :
    Complete (primary expr template) (Primary phrase leaf) (Fits good (bound + 1))
      (Ends fun _ => false) := by
  intro ts n hprimary hfits rest hrest
  cases hprimary with
  | number => rfl
  | true => rfl
  | false => rfl
  | undefined => rfl
  | identifier => rfl
  | plain => rfl
  | @template raw p n hn =>
    rw [primary, List.singleton_append, bind_of_ok (next_eq_ok.2 rfl)]
    exact lift_eq_ok.2 ⟨hleaf hn (hfits.templates raw p (by simp)), rfl⟩
  | parenthesized hinner =>
    rw [primary, List.cons_append, bind_of_ok (next_eq_ok.2 rfl)]
    exact enclosed_complete h hopens rfl hinner hfits.tail trivial
  | @whileLoop p us condition body hbranch =>
    rw [primary, List.cons_append, bind_of_ok (next_eq_ok.2 rfl)]
    dsimp only
    have hread : branch expr (us ++ rest) = .ok ((condition, body), rest) :=
      branch_complete h hopens hbranch hfits.tail trivial
    rw [branch] at hread
    obtain ⟨c, mid, hc, hread⟩ := bind_eq_ok.1 hread
    obtain ⟨b, mid', hb, hread⟩ := bind_eq_ok.1 hread
    obtain ⟨heq, hmid⟩ := pure_eq_ok.1 hread
    cases heq
    rw [hmid] at hb
    have hloop : whileLoop expr (us ++ rest) = .ok (.whileLoop condition body, rest) := by
      rw [whileLoop, bind_of_ok hc, bind_of_ok hb]
      rfl
    rw [bind_of_ok hloop]
    rfl
  | @conditional p us more first branches otherwise hfirst halts =>
    rw [primary, List.cons_append, bind_of_ok (next_eq_ok.2 rfl)]
    dsimp only
    have hread : conditional expr (us ++ (more ++ rest)) =
        .ok (.conditional (first :: branches) otherwise, rest) := by
      rw [conditional, bind_of_ok (branch_complete h hopens hfirst hfits.tail.left trivial)]
      rw [get_bind, bind_of_ok (alternatives_complete h hopens halts hfits.tail.right hrest _
        (by rw [List.length_append]; omega))]
      rfl
    rw [List.append_assoc, bind_of_ok hread]
    rfl
  | @function p q us more params body hparams hbody =>
    rw [primary, List.cons_append, bind_of_ok (next_eq_ok.2 rfl)]
    dsimp only
    have hfit := hfits.tail.rest
    have hread : function expr ((.leftParen, q) :: (us ++ (more ++ rest))) =
        .ok (.function params body, rest) := by
      rw [function, bind_of_ok ((discard_eq_ok (u := ())).2 ⟨_, expect_eq_ok.2 rfl⟩)]
      rw [bind_of_ok (commaList_complete parameter_complete (fun _ _ => Param.opens) rfl hparams
        hfit.left trivial)]
      rw [bind_of_ok (block_complete h hopens hbody hfit.right trivial)]
      rfl
    rw [List.cons_append, List.append_assoc, bind_of_ok hread]
    rfl
  | object hentries =>
    rw [primary, List.cons_append, bind_of_ok (next_eq_ok.2 rfl)]
    dsimp only
    rw [bind_of_ok (commaList_complete (property_complete h hopens) (fun _ _ => Entry.opens) rfl
      hentries hfits.tail trivial)]
    rfl
  | array hitems =>
    rw [primary, List.cons_append, bind_of_ok (next_eq_ok.2 rfl)]
    dsimp only
    rw [bind_of_ok (commaList_complete h hopens rfl hitems hfits.tail trivial)]
    rfl

theorem call_complete :
    Complete (call expr template) (Call phrase leaf) (Fits good (bound + 1))
      (Ends opensTrailer) := by
  intro ts n hcall hfits rest hrest
  have hend : ∀ {rest}, Ends opensTrailer rest → Ends (fun _ => false) rest :=
    fun hr => hr.mono fun _ ht => (by cases ht)
  have hnext : ∀ ⦃ts s⦄, Trailer phrase ts s → ∀ rest, Ends (fun _ => false) (ts ++ rest) := by
    intro ts s hs rest
    cases hs <;> exact .of_cons rfl (by decide) (by decide) _ _
  have hne : ∀ ⦃ts s⦄, Trailer phrase ts s → ts ≠ [] := by
    intro ts s hs
    cases hs <;> exact List.cons_ne_nil _ _
  have hmany := many_complete
    (fun ts s hs hf rest _ => suffix_complete h hopens hs hf rest) hne hnext
  have hstop : suffix expr rest = .ok (none, rest) := suffix_stops hrest
  cases hcall with
  | bare hn =>
    rw [call, bind_of_ok (primary_complete h hopens hleaf hn hfits (hend hrest)),
      bind_of_ok (many_stops hstop)]
    rfl
  | @trailed us more callee suffixes hcallee hmore hsome =>
    have hends : Ends (fun _ => false) (more ++ rest) := by
      cases hmore with
      | nil => exact absurd rfl hsome
      | cons hs _ =>
        rw [List.append_assoc]
        exact hnext hs _
    rw [call, List.append_assoc,
      bind_of_ok (primary_complete h hopens hleaf hcallee hfits.left hends)]
    rw [bind_of_ok (hmany hmore hfits.right ⟨hend hrest, hstop⟩)]
    cases suffixes with
    | nil => exact absurd rfl hsome
    | cons s suffixes => rfl

theorem multiplicative_complete :
    Complete (multiplicative expr template) (Multiplicative phrase leaf) (Fits good (bound + 1))
      (Ends continuesProduct) :=
  (chain_complete (call_complete h hopens hleaf)
    (fun _ _ hn => hn.opens.mono opensExpression_of_opensPrimary)
    multiplicative_separates).mono fun _ _ ⟨hn⟩ => hn

theorem unary_complete :
    Complete (unary expr template) (Unary (Multiplicative phrase leaf)) (Fits good (bound + 1))
      (Ends continuesProduct) := by
  intro ts n hunary hfits rest hrest
  obtain ⟨us, vs, signs, operand, rfl, hsigns, hoperand, rfl⟩ := hunary.signs
  have hmany : Complete (many sign) (Many IsSign) (Fits good (bound + 1))
      fun rest => True ∧ sign rest = .ok (none, rest) := many_complete
    (fun ts s hs (_ : Fits good (bound + 1) ts) rest _ => sign_of_isSign hs rest)
    (fun ts s hs => by obtain ⟨t, -, rfl⟩ := hs; exact List.cons_ne_nil _ _)
    (fun _ _ _ _ => trivial)
  rw [unary, List.append_assoc]
  rw [bind_of_ok (hmany hsigns hfits.left ⟨trivial, sign_stops (hoperand.opens.append rest)⟩)]
  rw [bind_of_ok (multiplicative_complete h hopens hleaf hoperand hfits.right hrest)]
  rfl

theorem additive_complete :
    Complete (additive expr template) (Additive phrase leaf) (Fits good (bound + 1))
      (Ends continuesSum) :=
  (chain_complete (unary_complete h hopens hleaf)
    (fun _ _ hn => (hn.opens fun _ _ => Multiplicative.opens).mono opensExpression_of_opensOperand)
    additive_separates).mono fun _ _ ⟨hn⟩ => hn

theorem comparison_complete :
    Complete (comparison expr template) (Comparison (Additive phrase leaf))
      (Fits good (bound + 1)) (Ends continuesComparison) := by
  intro ts n hcomparison hfits rest hrest
  have hside := additive_complete h hopens hleaf
  have hsideOpens : ∀ ⦃ts n⦄, Additive phrase leaf ts n → Opens opensExpression ts :=
    fun _ _ hn => hn.opens.mono opensExpression_of_opensOperand
  cases hcomparison with
  | single hn =>
    rw [comparison, bind_of_ok (hside hn hfits hrest.tighter), bind_of_ok (operand_stops hrest)]
    rfl
  | @compared us more left op right hleft hright =>
    have hends : Ends continuesSum (more ++ rest) := by
      obtain ⟨t, p, vs, rfl, ht⟩ := hright.head
      obtain ⟨hc, hn, he⟩ := comparison_separates ht
      exact .of_cons hc hn he p _
    rw [comparison, List.append_assoc, bind_of_ok (hside hleft hfits.left hends)]
    rw [bind_of_ok (operand_complete hside hsideOpens hright hfits.right hrest.tighter)]
    rfl

theorem disjunction_complete :
    Complete (disjunction expr template) (Disjunction phrase leaf) (Fits good (bound + 1))
      (Ends continuesDisjunction) := by
  have hconj : Complete (conjunction expr template) (Conjunction phrase leaf)
      (Fits good (bound + 1)) (Ends continuesConjunction) :=
    (chain_complete (comparison_complete h hopens hleaf)
      (fun _ _ hn => (hn.opens fun _ _ => Additive.opens).mono opensExpression_of_opensOperand)
      (only_separates rfl (by decide) (by decide))).mono fun _ _ ⟨hn⟩ => hn
  exact (chain_complete hconj
    (fun _ _ hn => hn.opens.mono opensExpression_of_opensOperand)
    (only_separates rfl (by decide) (by decide))).mono fun _ _ ⟨hn⟩ => hn

end Levels

theorem target_of_phrase {node object : Node} {name : String} (h : Target node object name) :
    target node = .ok (object, name) := by
  cases h with
  | bare => rfl
  | @chain callee suffixes name p q hne =>
    simp only [target, List.getLast?_append, List.getLast?_singleton, Option.some_or,
      List.dropLast_concat]

theorem assigned_complete {expr : Parser Node} {phrase : Tokens → Node → Prop}
    {good : String → Prop} {bound : Nat}
    (h : Complete expr phrase (Fits good bound) (Ends continuesExpression))
    (hopens : ∀ ⦃ts n⦄, phrase ts n → Opens opensExpression ts) {nl ts rest : Tokens} {n : Node}
    (hnl : Newlines nl) (hn : phrase ts n) (hfits : Fits good bound (nl ++ ts))
    (hrest : Ends continuesExpression rest) :
    assigned expr (nl ++ (ts ++ rest)) = .ok (n, rest) := by
  rw [assigned, skipNewlines_bind, dropNewlines_append hnl]
  rw [dropNewlines_opens ((hopens hn).append _)]
  exact h hn hfits.right hrest

/-- A disjunction is not taken for an assignment to a name, unless it is a name that stands before
an equals sign. -/
theorem level_of_disjunction {expr : Parser Node}
    {template : String → Position → Except SyntaxError Node} {phrase : Tokens → Node → Prop}
    {leaf : String → Position → Node → Prop} {ts rest : Tokens} {n : Node}
    (h : Disjunction phrase leaf ts n)
    (hname : ∀ name p q more, rest = (.equals, q) :: more → n ≠ ⟨.identifier name, p⟩) :
    level expr template (ts ++ rest) = unnamed expr template (ts ++ rest) := by
  rw [level, get_bind]
  generalize hts : ts ++ rest = tokens
  split
  · next p more =>
    obtain ⟨t, q, us, rfl, ht⟩ := h.opens
    cases hts
    cases ht
  · next name p q more =>
    obtain ⟨rfl, hn⟩ := h.name_before_equals hts
    rw [List.singleton_append, List.cons.injEq] at hts
    exact absurd hn (hname name p q more hts.2)
  · rfl

/-- Every expression that is short enough is read, up to tokens that do not continue it. -/
theorem expression_complete {template : String → Position → Except SyntaxError Node}
    {good : String → Prop}
    (hleaf : ∀ ⦃raw p n⦄, Phrase.Template raw p n → good raw → template raw p = .ok n) (k : Nat) :
    Complete (expression template k) Expression (Fits good k) (Ends continuesExpression) := by
  induction k with
  | zero =>
    intro ts n _ hfits
    exact absurd hfits.short (Nat.not_lt_zero _)
  | succ k ih =>
    intro ts n hexpr hfits rest hrest
    have hopens : ∀ ⦃ts n⦄, Expression ts n → Opens opensExpression ts :=
      fun _ _ => Expression.opens
    have hdisj := disjunction_complete ih hopens hleaf
    rw [expression]
    cases hexpr with
    | @assignment name p q nl us n hnl hn =>
      simp only [List.cons_append, List.append_assoc]
      rw [level, get_bind]
      dsimp only
      rw [set_bind, bind_of_ok (assigned_complete ih hopens hnl hn hfits.tail.rest hrest)]
      rfl
    | @declaration name p q r nl us n hnl hn =>
      simp only [List.cons_append, List.append_assoc]
      rw [level, get_bind]
      dsimp only
      rw [set_bind, bind_of_ok (identifier_eq_ok.2 ⟨_, rfl⟩)]
      rw [bind_of_ok ((discard_eq_ok (u := ())).2 ⟨_, expect_eq_ok.2 rfl⟩)]
      rw [bind_of_ok (assigned_complete ih hopens hnl hn hfits.tail.rest.rest hrest)]
      rfl
    | @propertyAssignment left p nl us target object name n hleft htarget hnl hn =>
      have hends : Ends continuesDisjunction ((.equals, p) :: (nl ++ (us ++ rest))) :=
        .of_cons rfl (by decide) (by decide) p _
      simp only [List.cons_append, List.append_assoc]
      rw [level_of_disjunction hleft (by rintro name p q more - rfl; cases htarget)]
      rw [unnamed, bind_of_ok (hdisj hleft hfits.left hends), peek_bind]
      rw [List.head?_cons, Option.map_some, if_pos rfl]
      rw [bind_of_ok (lift_eq_ok.2 ⟨target_of_phrase htarget, rfl⟩)]
      dsimp only
      rw [bind_of_ok ((discard_eq_ok (u := ())).2 ⟨_, next_eq_ok.2 rfl⟩)]
      rw [bind_of_ok (assigned_complete ih hopens hnl hn hfits.right.tail hrest)]
      rfl
    | disjunction hn =>
      have hstop : ∀ q more, rest ≠ (.equals, q) :: more := by
        rintro q more rfl
        cases hrest.stops (.equals, q) rfl
      have hpeek : ¬ rest.head?.map (·.1) = some .equals := by
        cases rest with
        | nil => simp
        | cons t rest =>
          obtain ⟨t, p⟩ := t
          rintro ht
          cases ht
          exact hstop p rest rfl
      rw [level_of_disjunction hn fun _ _ q more hr => absurd hr (hstop q more)]
      rw [unnamed, bind_of_ok (hdisj hn hfits hrest.tighter), peek_bind, if_neg hpeek]
      rfl

end Grammar
end Scriptlet
