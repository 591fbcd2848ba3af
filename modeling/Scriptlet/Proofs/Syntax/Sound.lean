import Mathlib.Data.List.TakeWhile
import Scriptlet.Proofs.Syntax.Boundary
import Scriptlet.Proofs.Syntax.Reading
/-!
# What readers accept

Every reader of the grammar takes off a phrase of its level and leaves the tokens after it
(`Grammar.expression_sound`). Nothing is said here about how far a reader goes; a reader that stops
early is sound as well. What is known of phrases is left open, so that it can be any predicate that
the productions keep.
-/
namespace Scriptlet

open Phrase

namespace Parser

variable {α : Type}

/-- What the reader takes off is a phrase for its result. -/
def Sound (m : Parser α) (phrase : Tokens → α → Prop) : Prop :=
  ∀ ⦃ts a rest⦄, m ts = .ok (a, rest) → ∃ used, ts = used ++ rest ∧ phrase used a

/-- A step without a result takes nothing off; one with a result is sound. -/
def SoundStep (step : Parser (Option α)) (phrase : Tokens → α → Prop) : Prop :=
  ∀ ⦃ts r rest⦄, step ts = .ok (r, rest) →
    match r with
    | none => ts = rest
    | some a => ∃ used, ts = used ++ rest ∧ phrase used a

theorem Sound.mono {m : Parser α} {phrase wider : Tokens → α → Prop} (h : Sound m phrase)
    (hw : ∀ ⦃ts a⦄, phrase ts a → wider ts a) : Sound m wider := by
  intro ts a rest hm
  obtain ⟨used, hts, hp⟩ := h hm
  exact ⟨used, hts, hw hp⟩

theorem newlines_takeWhile (ts : Tokens) : Newlines (ts.takeWhile (·.1 = .newline)) := by
  intro t ht
  simpa using List.mem_takeWhile_imp ht

theorem exists_newlines (ts : Tokens) : ∃ nl, Newlines nl ∧ ts = nl ++ dropNewlines ts :=
  ⟨_, newlines_takeWhile ts, List.takeWhile_append_dropWhile.symm⟩

theorem repeated_sound {step : Parser (Option α)} {phrase : Tokens → α → Prop}
    (h : SoundStep step phrase) (n : Nat) : Sound (repeated step n) (Many phrase) := by
  induction n with
  | zero =>
    intro ts as rest hm
    obtain ⟨rfl, rfl⟩ := pure_eq_ok.1 hm
    exact ⟨[], rfl, .nil⟩
  | succ n ih =>
    intro ts as rest hm
    obtain ⟨r, mid, hs, hm⟩ := bind_eq_ok.1 hm
    have hstep := h hs
    cases r with
    | none =>
      obtain ⟨rfl, rfl⟩ := pure_eq_ok.1 hm
      exact ⟨[], hstep, .nil⟩
    | some a =>
      obtain ⟨as', mid', hr, hm⟩ := bind_eq_ok.1 hm
      obtain ⟨rfl, rfl⟩ := pure_eq_ok.1 hm
      obtain ⟨used, rfl, ha⟩ := hstep
      obtain ⟨more, rfl, has⟩ := ih hr
      exact ⟨used ++ more, by rw [List.append_assoc], .cons ha has⟩

theorem many_sound {step : Parser (Option α)} {phrase : Tokens → α → Prop}
    (h : SoundStep step phrase) : Sound (many step) (Many phrase) := by
  intro ts as rest hm
  rw [many, get_bind] at hm
  exact repeated_sound h ts.length hm

end Parser

namespace Phrase

variable {α : Type} {item : Tokens → α → Prop} {closing : Token}

theorem Items.last {nl ts nl' : Tokens} {a : α} {p : Position} (hnl : Newlines nl)
    (ha : item ts a) (hnl' : Newlines nl') :
    Items item closing (nl ++ (ts ++ (nl' ++ [(closing, p)]))) [a] := by
  have h : Items item closing (nl ++ (ts ++ (nl' ++ ([] ++ ([] ++ [(closing, p)]))))) [a] :=
    .filled hnl ha hnl' .nil .absent
  exact h

theorem Items.cons {nl ts nl' more : Tokens} {a : α} {as : List α} {p : Position}
    (hnl : Newlines nl) (ha : item ts a) (hnl' : Newlines nl') (has : Items item closing more as) :
    Items item closing (nl ++ (ts ++ (nl' ++ ((.comma, p) :: more)))) (a :: as) := by
  cases has with
  | @empty nl'' q hsecond =>
    have h : Items item closing
        (nl ++ (ts ++ (nl' ++ ([] ++ (((.comma, p) :: nl'') ++ [(closing, q)]))))) [a] :=
      .filled hnl ha hnl' .nil (.present hsecond)
    exact h
  | @filled _ _ _ _ _ q _ _ hsecond hb hthird hbs htrail =>
    have hmore := Many.cons (FurtherItem.mk (p := p) hsecond hb hthird) hbs
    have h : Items item closing _ _ := .filled (p := q) hnl ha hnl' hmore htrail
    simpa only [List.cons_append, List.append_assoc] using h

variable {expr : Tokens → Node → Prop}

/-- One more statement in front; what follows it must not open an expression, or the two would
stand together without a separator. -/
theorem StatementList.cons {seps ts more : Tokens} {n : Node} {ns : List Node}
    (hopens : ∀ ⦃ts n⦄, expr ts n → Opens opensExpression ts) (hseps : Separators seps)
    (hn : expr ts n) (hmore : ∀ t ∈ more.head?, opensExpression t.1 = false)
    (hns : StatementList expr more ns) : StatementList expr (seps ++ (ts ++ more)) (n :: ns) := by
  cases hns with
  | empty hlast =>
    have h : StatementList expr (seps ++ (ts ++ ([] ++ more))) [n] := .filled hseps hn .nil hlast
    exact h
  | @filled seps' ts' more' _ _ _ hseps' hn' hrest hlast =>
    have hne : seps' ≠ [] := by
      rintro rfl
      obtain ⟨t, p, us, rfl, ht⟩ := hopens hn'
      have := hmore (t, p) (by simp)
      simp [ht] at this
    have h := StatementList.filled hseps hn (.cons (.mk hseps' hne hn') hrest) hlast
    simpa only [List.append_assoc] using h

theorem StatementList.single {seps ts : Tokens} {n : Node} (hseps : Separators seps)
    (hn : expr ts n) : StatementList expr (seps ++ ts) [n] := by
  have h : StatementList expr (seps ++ (ts ++ ([] ++ []))) [n] :=
    .filled hseps hn .nil (by simp [Separators])
  simpa using h

end Phrase

namespace Parser

variable {α : Type}

theorem itemsUntil_sound {item : Parser α} {phrase : Tokens → α → Prop} (closing : Token)
    (h : Sound item phrase) (n : Nat) :
    Sound (itemsUntil item closing n) (Items phrase closing) := by
  induction n with
  | zero =>
    intro ts as rest hm
    cases hm
  | succ n ih =>
    intro ts as rest hm
    rw [itemsUntil, skipNewlines_bind, peek_bind] at hm
    obtain ⟨nl, hnl, hts⟩ := exists_newlines ts
    rw [hts]
    split at hm
    · next hclose =>
      obtain ⟨u, mid, hd, hm⟩ := bind_eq_ok.1 hm
      obtain ⟨⟨t, p⟩, hn⟩ := discard_eq_ok.1 hd
      obtain ⟨rfl, rfl⟩ := pure_eq_ok.1 hm
      rw [next_eq_ok] at hn
      simp only [hn, List.head?_cons, Option.map_some, Option.some.injEq] at hclose
      subst hclose
      exact ⟨nl ++ [(t, p)], by simp [hn], .empty hnl⟩
    · obtain ⟨a, mid, hi, hm⟩ := bind_eq_ok.1 hm
      rw [skipNewlines_bind] at hm
      obtain ⟨⟨found, p⟩, mid', hn, hm⟩ := bind_eq_ok.1 hm
      obtain ⟨used, hused, ha⟩ := h hi
      obtain ⟨nl', hnl', hmid⟩ := exists_newlines mid
      rw [hused, hmid, next_eq_ok.1 hn]
      dsimp only at hm
      split at hm
      · next hcomma =>
        obtain ⟨as', mid'', hr, hm⟩ := bind_eq_ok.1 hm
        obtain ⟨rfl, rfl⟩ := pure_eq_ok.1 hm
        obtain ⟨more, rfl, has⟩ := ih hr
        subst hcomma
        exact ⟨_, by simp, Items.cons (p := p) hnl ha hnl' has⟩
      · split at hm
        · next hclose =>
          obtain ⟨rfl, rfl⟩ := pure_eq_ok.1 hm
          subst hclose
          exact ⟨_, by simp, Items.last (p := p) hnl ha hnl'⟩
        · cases hm

theorem commaList_sound {item : Parser α} {phrase : Tokens → α → Prop} (closing : Token)
    (h : Sound item phrase) : Sound (commaList item closing) (Items phrase closing) := by
  intro ts as rest hm
  rw [commaList, get_bind] at hm
  exact itemsUntil_sound closing h (ts.length + 1) hm

end Parser

namespace Grammar

open Scriptlet.Parser

theorem operator_eq_ok {α : Type} {operator? : Token → Option α} {ts rest : Tokens}
    {r : Option α} (h : operator operator? ts = .ok (r, rest)) :
    match r with
    | none => ts = rest
    | some op => ∃ t p nl, operator? t = some op ∧ Newlines nl ∧ ts = (t, p) :: (nl ++ rest) := by
  rw [operator, peek_bind] at h
  cases hop : (ts.head?.map (·.1)).bind operator? with
  | none =>
    rw [hop] at h
    obtain ⟨rfl, rfl⟩ := pure_eq_ok.1 h
    rfl
  | some op =>
    rw [hop] at h
    obtain ⟨u, mid, hd, h⟩ := bind_eq_ok.1 h
    obtain ⟨⟨t, p⟩, hn⟩ := discard_eq_ok.1 hd
    rw [skipNewlines_bind] at h
    obtain ⟨rfl, rfl⟩ := pure_eq_ok.1 h
    rw [next_eq_ok] at hn
    obtain ⟨nl, hnl, hmid⟩ := exists_newlines mid
    refine ⟨t, p, nl, ?_, hnl, ?_⟩
    · simpa [hn] using hop
    · rw [hn, ← hmid]

theorem operand_sound {α : Type} (operator? : Token → Option α) {side : Parser Node}
    {phrase : Tokens → Node → Prop} (h : Sound side phrase) :
    SoundStep (operand operator? side) (Operand operator? phrase) := by
  intro ts r rest hm
  obtain ⟨r', mid, ho, hm⟩ := bind_eq_ok.1 hm
  have hop := operator_eq_ok ho
  cases r' with
  | none =>
    obtain ⟨rfl, rfl⟩ := pure_eq_ok.1 hm
    exact hop
  | some op =>
    obtain ⟨n, mid', hs, hm⟩ := bind_eq_ok.1 hm
    obtain ⟨rfl, rfl⟩ := pure_eq_ok.1 hm
    obtain ⟨t, p, nl, ht, hnl, rfl⟩ := hop
    obtain ⟨used, rfl, hn⟩ := h hs
    exact ⟨(t, p) :: (nl ++ used), by simp, .mk ht hnl hn⟩

theorem chain_sound {α : Type} (operator? : Token → Option α)
    (make : Node → List (α × Node) → NodeKind) {side : Parser Node}
    {phrase : Tokens → Node → Prop} (h : Sound side phrase) :
    Sound (chain operator? make side) (Chain operator? make phrase) := by
  intro ts n rest hm
  obtain ⟨first, mid, hs, hm⟩ := bind_eq_ok.1 hm
  obtain ⟨operands, mid', hr, hm⟩ := bind_eq_ok.1 hm
  obtain ⟨used, rfl, hfirst⟩ := h hs
  obtain ⟨more, rfl, hmore⟩ := many_sound (operand_sound operator? h) hr
  cases operands with
  | nil =>
    obtain ⟨rfl, rfl⟩ := pure_eq_ok.1 hm
    cases hmore
    exact ⟨used, rfl, .single hfirst⟩
  | cons o os =>
    obtain ⟨rfl, rfl⟩ := pure_eq_ok.1 hm
    exact ⟨used ++ more, by simp, .several hfirst hmore (List.cons_ne_nil o os)⟩

section Constructs

variable {expr : Parser Node} {phrase : Tokens → Node → Prop}

theorem separators_takeWhile (ts : Tokens) : Separators (ts.takeWhile (isSeparator ·.1)) :=
  fun _ ht => List.mem_takeWhile_imp (p := fun t : Token × Position => isSeparator t.1) ht

theorem not_opensExpression_of_ends {t : Token} (h : t = .rightBrace ∨ isSeparator t) :
    opensExpression t = false := by
  rcases h with rfl | h
  · rfl
  · simp only [isSeparator, Bool.or_eq_true, decide_eq_true_eq] at h
    rcases h with rfl | rfl <;> rfl

theorem statementsWithin_sound (h : Sound expr phrase)
    (hopens : ∀ ⦃ts n⦄, phrase ts n → Opens opensExpression ts) (k : Nat) :
    Sound (statementsWithin expr k) (StatementList phrase) := by
  induction k with
  | zero =>
    intro ts ns rest hm
    cases hm
  | succ k ih =>
    intro ts ns rest hm
    rw [statementsWithin, modify_bind, peek_bind] at hm
    have hts := List.takeWhile_append_dropWhile (p := fun t => isSeparator t.1) (l := ts)
    have hseps := separators_takeWhile ts
    split at hm
    · obtain ⟨rfl, rfl⟩ := pure_eq_ok.1 hm
      exact ⟨_, hts.symm, .empty hseps⟩
    · obtain ⟨n, mid, he, hm⟩ := bind_eq_ok.1 hm
      rw [get_bind] at hm
      obtain ⟨used, hused, hn⟩ := h he
      rw [hused] at hts
      cases mid with
      | nil =>
        obtain ⟨rfl, rfl⟩ := pure_eq_ok.1 hm
        exact ⟨_, by simpa using hts.symm, .single hseps hn⟩
      | cons t mid =>
        obtain ⟨t, p⟩ := t
        dsimp only at hm
        split at hm
        · next hend =>
          obtain ⟨ns', mid', hr, hm⟩ := bind_eq_ok.1 hm
          obtain ⟨rfl, rfl⟩ := pure_eq_ok.1 hm
          obtain ⟨more, hmid, hns⟩ := ih hr
          rw [hmid] at hts
          refine ⟨_, ?_, .cons hopens hseps hn ?_ hns⟩
          · simpa only [List.append_assoc] using hts.symm
          · intro u hu
            cases more with
            | nil => cases hu
            | cons v more =>
              cases hu
              cases hmid
              exact not_opensExpression_of_ends (by simpa using hend)
        · cases hm

theorem block_sound (h : Sound expr phrase)
    (hopens : ∀ ⦃ts n⦄, phrase ts n → Opens opensExpression ts) :
    Sound (block expr) (Block phrase) := by
  intro ts n rest hm
  obtain ⟨p, mid, hleft, hm⟩ := bind_eq_ok.1 hm
  obtain ⟨n', mid', hbody, hm⟩ := bind_eq_ok.1 hm
  obtain ⟨u, mid'', hright, hm⟩ := bind_eq_ok.1 hm
  obtain ⟨rfl, rfl⟩ := pure_eq_ok.1 hm
  obtain ⟨q, hright⟩ := discard_eq_ok.1 hright
  rw [expect_eq_ok] at hleft hright
  rw [statements, get_bind] at hbody
  obtain ⟨body, mid'', hlist, hm⟩ := bind_eq_ok.1 hbody
  obtain ⟨rfl, rfl⟩ := pure_eq_ok.1 hm
  obtain ⟨used, hused, hlist⟩ := statementsWithin_sound h hopens _ hlist
  refine ⟨_, ?_, .mk (p := p) (q := q) hlist⟩
  rw [hleft, hused, hright]
  simp

theorem branch_sound (h : Sound expr phrase)
    (hopens : ∀ ⦃ts n⦄, phrase ts n → Opens opensExpression ts) :
    Sound (branch expr) (Branch phrase) := by
  intro ts r rest hm
  obtain ⟨condition, mid, hc, hm⟩ := bind_eq_ok.1 hm
  obtain ⟨body, mid', hb, hm⟩ := bind_eq_ok.1 hm
  obtain ⟨rfl, rfl⟩ := pure_eq_ok.1 hm
  obtain ⟨used, rfl, hcondition⟩ := h hc
  obtain ⟨more, rfl, hbody⟩ := block_sound h hopens hb
  exact ⟨used ++ more, by simp, .mk hcondition hbody⟩

theorem elseWord_eq_ok {ts rest : Tokens} {found : Bool} (h : elseWord ts = .ok (found, rest)) :
    (found = false ∧ ts = rest) ∨
      (found = true ∧ ∃ nl p, Newlines nl ∧ ts = nl ++ ((.kwElse, p) :: rest)) := by
  rw [elseWord, get_bind] at h
  obtain ⟨nl, hnl, hts⟩ := exists_newlines ts
  cases hdrop : dropNewlines ts with
  | nil =>
    rw [hdrop] at h
    obtain ⟨rfl, rfl⟩ := pure_eq_ok.1 h
    exact .inl ⟨rfl, rfl⟩
  | cons t more =>
    obtain ⟨t, p⟩ := t
    rw [hdrop] at h hts
    cases t
    case kwElse =>
      obtain ⟨rfl, rfl⟩ := pure_eq_ok.1 h
      exact .inr ⟨rfl, nl, p, hnl, hts⟩
    all_goals
      obtain ⟨rfl, rfl⟩ := pure_eq_ok.1 h
      exact .inl ⟨rfl, rfl⟩

theorem alternatives_sound (h : Sound expr phrase)
    (hopens : ∀ ⦃ts n⦄, phrase ts n → Opens opensExpression ts) (k : Nat) :
    Sound (alternatives expr k) (Alternatives phrase) := by
  induction k with
  | zero =>
    intro ts r rest hm
    obtain ⟨rfl, rfl⟩ := pure_eq_ok.1 hm
    exact ⟨[], rfl, .mk .nil .absent⟩
  | succ k ih =>
    intro ts r rest hm
    rw [alternatives] at hm
    obtain ⟨found, mid, he, hm⟩ := bind_eq_ok.1 hm
    rcases elseWord_eq_ok he with ⟨rfl, rfl⟩ | ⟨rfl, nl, p, hnl, hts⟩
    · obtain ⟨rfl, rfl⟩ := pure_eq_ok.1 hm
      exact ⟨[], rfl, .mk .nil .absent⟩
    · rw [if_pos rfl, peek_bind] at hm
      split at hm
      · next hif =>
        obtain ⟨u, mid, hd, hm⟩ := bind_eq_ok.1 hm
        obtain ⟨⟨t, q⟩, hn⟩ := discard_eq_ok.1 hd
        obtain ⟨second, mid, hb, hm⟩ := bind_eq_ok.1 hm
        obtain ⟨⟨branches, otherwise⟩, mid, hr, hm⟩ := bind_eq_ok.1 hm
        obtain ⟨rfl, rfl⟩ := pure_eq_ok.1 hm
        rw [next_eq_ok] at hn
        subst hn
        simp only [List.head?_cons, Option.map_some, Option.some.injEq] at hif
        subst hif
        obtain ⟨used, rfl, hsecond⟩ := branch_sound h hopens hb
        obtain ⟨more, rfl, hmore⟩ := ih hr
        cases hmore with
        | mk hmore hlast =>
          refine ⟨_, ?_, .mk (.cons (.mk (p := p) (q := q) hnl hsecond) hmore) hlast⟩
          simp [hts]
      · obtain ⟨body, mid, hb, hm⟩ := bind_eq_ok.1 hm
        obtain ⟨rfl, rfl⟩ := pure_eq_ok.1 hm
        obtain ⟨used, rfl, hbody⟩ := block_sound h hopens hb
        refine ⟨_, ?_, .mk .nil (.present (p := p) hnl hbody)⟩
        simp [hts]

theorem parameter_sound : Sound parameter Param := by
  intro ts param rest hm
  rw [parameter, peek_bind] at hm
  split at hm
  · next hmut =>
    obtain ⟨u, mid, hd, hm⟩ := bind_eq_ok.1 hm
    obtain ⟨name, mid, hi, hm⟩ := bind_eq_ok.1 hm
    obtain ⟨rfl, rfl⟩ := pure_eq_ok.1 hm
    obtain ⟨⟨t, p⟩, hn⟩ := discard_eq_ok.1 hd
    obtain ⟨q, rfl⟩ := identifier_eq_ok.1 hi
    rw [next_eq_ok] at hn
    subst hn
    simp only [List.head?_cons, Option.map_some, Option.some.injEq] at hmut
    subst hmut
    exact ⟨_, rfl, .mutable (p := p) (q := q)⟩
  · obtain ⟨name, mid, hi, hm⟩ := bind_eq_ok.1 hm
    obtain ⟨rfl, rfl⟩ := pure_eq_ok.1 hm
    obtain ⟨p, rfl⟩ := identifier_eq_ok.1 hi
    exact ⟨_, rfl, .fixed (p := p)⟩

theorem property_sound (h : Sound expr phrase) : Sound (property expr) (Entry phrase) := by
  intro ts entry rest hm
  obtain ⟨name, mid, hi, hm⟩ := bind_eq_ok.1 hm
  obtain ⟨u, mid, hd, hm⟩ := bind_eq_ok.1 hm
  rw [skipNewlines_bind] at hm
  obtain ⟨n, mid', he, hm⟩ := bind_eq_ok.1 hm
  obtain ⟨rfl, rfl⟩ := pure_eq_ok.1 hm
  obtain ⟨p, rfl⟩ := identifier_eq_ok.1 hi
  obtain ⟨q, hcolon⟩ := discard_eq_ok.1 hd
  rw [expect_eq_ok] at hcolon
  obtain ⟨nl, hnl, hmid⟩ := exists_newlines mid
  obtain ⟨used, hused, hn⟩ := h he
  refine ⟨_, ?_, .mk (p := p) (q := q) hnl hn⟩
  rw [hcolon, hmid, hused]
  simp

theorem enclosed_sound (closing : Token) (expected : Expectation) (h : Sound expr phrase) :
    Sound (enclosed expr closing expected) (Enclosed phrase closing) := by
  intro ts n rest hm
  rw [enclosed, skipNewlines_bind] at hm
  obtain ⟨inner, mid, he, hm⟩ := bind_eq_ok.1 hm
  rw [skipNewlines_bind] at hm
  obtain ⟨u, mid', hd, hm⟩ := bind_eq_ok.1 hm
  obtain ⟨rfl, rfl⟩ := pure_eq_ok.1 hm
  obtain ⟨p, hclose⟩ := discard_eq_ok.1 hd
  rw [expect_eq_ok] at hclose
  obtain ⟨nl, hnl, hts⟩ := exists_newlines ts
  obtain ⟨nl', hnl', hmid⟩ := exists_newlines mid
  obtain ⟨used, hused, hn⟩ := h he
  refine ⟨_, ?_, .mk (p := p) hnl hn hnl'⟩
  rw [hts, hused, hmid, hclose]
  simp

theorem suffix_sound (h : Sound expr phrase) : SoundStep (suffix expr) (Trailer phrase) := by
  intro ts r rest hm
  rw [suffix, get_bind] at hm
  cases ts with
  | nil =>
    obtain ⟨rfl, rfl⟩ := pure_eq_ok.1 hm
    rfl
  | cons t ts =>
    obtain ⟨t, p⟩ := t
    cases t
    case leftParen =>
      dsimp only at hm
      rw [set_bind] at hm
      obtain ⟨items, mid, hl, hm⟩ := bind_eq_ok.1 hm
      obtain ⟨rfl, rfl⟩ := pure_eq_ok.1 hm
      obtain ⟨used, rfl, hitems⟩ := commaList_sound .rightParen h hl
      exact ⟨_, rfl, .arguments hitems⟩
    case leftBracket =>
      dsimp only at hm
      rw [set_bind] at hm
      obtain ⟨n, mid, he, hm⟩ := bind_eq_ok.1 hm
      obtain ⟨rfl, rfl⟩ := pure_eq_ok.1 hm
      obtain ⟨used, rfl, hn⟩ := enclosed_sound .rightBracket .closingBracket h he
      exact ⟨_, rfl, .index hn⟩
    case dot =>
      dsimp only at hm
      rw [set_bind] at hm
      obtain ⟨name, mid, hi, hm⟩ := bind_eq_ok.1 hm
      obtain ⟨rfl, rfl⟩ := pure_eq_ok.1 hm
      obtain ⟨q, rfl⟩ := identifier_eq_ok.1 hi
      exact ⟨_, rfl, .property (q := q)⟩
    all_goals
      obtain ⟨rfl, rfl⟩ := pure_eq_ok.1 hm
      rfl

end Constructs

theorem target_eq_ok {node object : Node} {name : String} (h : target node = .ok (object, name)) :
    Target node object name := by
  obtain ⟨kind, p⟩ := node
  cases kind
  case call callee suffixes =>
    cases hlast : suffixes.getLast? with
    | none => simp [target, hlast] at h
    | some last =>
      obtain ⟨others, rfl⟩ := List.getLast?_eq_some_iff.1 hlast
      obtain ⟨kind, q⟩ := last
      cases kind
      case property name' =>
        cases others with
        | nil =>
          simp only [target, List.nil_append, List.getLast?_singleton, List.dropLast_singleton,
            Except.ok.injEq, Prod.mk.injEq] at h
          obtain ⟨rfl, rfl⟩ := h
          exact .bare
        | cons other others =>
          simp only [target, hlast, List.dropLast_concat, Except.ok.injEq, Prod.mk.injEq] at h
          obtain ⟨rfl, rfl⟩ := h
          exact .chain (List.cons_ne_nil other others)
      all_goals simp [target] at h
  all_goals simp [target] at h

section Levels

variable {expr : Parser Node} {phrase : Tokens → Node → Prop}
  {template : String → Position → Except SyntaxError Node}
  {leaf : String → Position → Node → Prop}

theorem sign_eq_ok {ts rest : Tokens} {r : Option (UnaryOperator × Position)}
    (h : sign ts = .ok (r, rest)) :
    match r with
    | none => ts = rest
    | some (op, p) => ∃ t, unaryOperator? t = some op ∧ ts = (t, p) :: rest := by
  rw [sign, get_bind] at h
  cases ts with
  | nil =>
    obtain ⟨rfl, rfl⟩ := pure_eq_ok.1 h
    rfl
  | cons t ts =>
    obtain ⟨t, p⟩ := t
    dsimp only at h
    cases hop : unaryOperator? t with
    | none =>
      rw [hop] at h
      obtain ⟨rfl, rfl⟩ := pure_eq_ok.1 h
      rfl
    | some op =>
      rw [hop] at h
      obtain ⟨rfl, rfl⟩ := pure_eq_ok.1 h
      exact ⟨t, hop, rfl⟩

theorem repeated_sign_sound {side : Tokens → Node → Prop} {ts mid : Tokens} {k : Nat}
    {signs : List (UnaryOperator × Position)} (hs : repeated sign k ts = .ok (signs, mid)) :
    ∃ used, ts = used ++ mid ∧ ∀ ⦃more operand⦄, side more operand →
      Unary side (used ++ more)
        (signs.foldr (fun (op, p) node => ⟨.unary op node, p⟩) operand) := by
  induction k generalizing ts signs with
  | zero =>
    obtain ⟨rfl, rfl⟩ := pure_eq_ok.1 hs
    exact ⟨[], rfl, fun _ _ h => .unsigned h⟩
  | succ k ih =>
    obtain ⟨r, mid', hsign, hs⟩ := bind_eq_ok.1 hs
    have hstep := sign_eq_ok hsign
    cases r with
    | none =>
      obtain ⟨rfl, rfl⟩ := pure_eq_ok.1 hs
      exact ⟨[], hstep, fun _ _ h => .unsigned h⟩
    | some r =>
      obtain ⟨op, p⟩ := r
      obtain ⟨signs', mid'', hr, hs⟩ := bind_eq_ok.1 hs
      obtain ⟨rfl, rfl⟩ := pure_eq_ok.1 hs
      obtain ⟨t, ht, rfl⟩ := hstep
      obtain ⟨used, rfl, hused⟩ := ih hr
      exact ⟨(t, p) :: used, rfl, fun _ _ h => .signed ht (hused h)⟩

variable (h : Sound expr phrase) (hopens : ∀ ⦃ts n⦄, phrase ts n → Opens opensExpression ts)
  (hleaf : ∀ ⦃raw p n⦄, template raw p = .ok n → leaf raw p n)

include h hopens hleaf

theorem primary_sound :
    Sound (primary expr template) (Primary phrase leaf) := by
  intro ts n rest hread
  obtain ⟨⟨t, p⟩, mid, hn, hm⟩ := bind_eq_ok.1 hread
  rw [next_eq_ok] at hn
  subst hn
  cases t <;> dsimp only at hm
  case number =>
    obtain ⟨rfl, rfl⟩ := pure_eq_ok.1 hm
    exact ⟨[_], rfl, .number⟩
  case kwTrue =>
    obtain ⟨rfl, rfl⟩ := pure_eq_ok.1 hm
    exact ⟨[_], rfl, .true⟩
  case kwFalse =>
    obtain ⟨rfl, rfl⟩ := pure_eq_ok.1 hm
    exact ⟨[_], rfl, .false⟩
  case kwUndefined =>
    obtain ⟨rfl, rfl⟩ := pure_eq_ok.1 hm
    exact ⟨[_], rfl, .undefined⟩
  case identifier =>
    obtain ⟨rfl, rfl⟩ := pure_eq_ok.1 hm
    exact ⟨[_], rfl, .identifier⟩
  case plain =>
    obtain ⟨rfl, rfl⟩ := pure_eq_ok.1 hm
    exact ⟨[_], rfl, .plain⟩
  case template raw =>
    obtain ⟨ht, rfl⟩ := lift_eq_ok.1 hm
    exact ⟨[_], rfl, .template (hleaf ht)⟩
  case leftParen =>
    obtain ⟨used, rfl, hinner⟩ := enclosed_sound .rightParen .closingParen h hm
    exact ⟨_, rfl, .parenthesized hinner⟩
  case kwWhile =>
    obtain ⟨kind, mid', hw, hm⟩ := bind_eq_ok.1 hm
    obtain ⟨rfl, rfl⟩ := pure_eq_ok.1 hm
    obtain ⟨condition, mid'', hc, hw⟩ := bind_eq_ok.1 hw
    obtain ⟨body, mid'', hb, hw⟩ := bind_eq_ok.1 hw
    obtain ⟨rfl, rfl⟩ := pure_eq_ok.1 hw
    obtain ⟨used, rfl, hcondition⟩ := h hc
    obtain ⟨more, rfl, hbody⟩ := block_sound h hopens hb
    exact ⟨_, by simp, .whileLoop (.mk hcondition hbody)⟩
  case kwIf =>
    obtain ⟨kind, mid', hi, hm⟩ := bind_eq_ok.1 hm
    obtain ⟨rfl, rfl⟩ := pure_eq_ok.1 hm
    obtain ⟨first, mid'', hf, hi⟩ := bind_eq_ok.1 hi
    rw [get_bind] at hi
    obtain ⟨⟨branches, otherwise⟩, mid'', ha, hi⟩ := bind_eq_ok.1 hi
    obtain ⟨rfl, rfl⟩ := pure_eq_ok.1 hi
    obtain ⟨used, rfl, hfirst⟩ := branch_sound h hopens hf
    obtain ⟨more, rfl, halts⟩ := alternatives_sound h hopens _ ha
    exact ⟨_, by simp, .conditional hfirst halts⟩
  case kwFn =>
    obtain ⟨kind, mid', hf, hm⟩ := bind_eq_ok.1 hm
    obtain ⟨rfl, rfl⟩ := pure_eq_ok.1 hm
    obtain ⟨u, mid'', hd, hf⟩ := bind_eq_ok.1 hf
    obtain ⟨params, mid'', hl, hf⟩ := bind_eq_ok.1 hf
    obtain ⟨body, mid'', hb, hf⟩ := bind_eq_ok.1 hf
    obtain ⟨rfl, rfl⟩ := pure_eq_ok.1 hf
    obtain ⟨q, hparen⟩ := discard_eq_ok.1 hd
    rw [expect_eq_ok] at hparen
    subst hparen
    obtain ⟨used, rfl, hparams⟩ := commaList_sound .rightParen parameter_sound hl
    obtain ⟨more, rfl, hbody⟩ := block_sound h hopens hb
    exact ⟨_, by simp, .function (q := q) hparams hbody⟩
  case leftBrace =>
    obtain ⟨entries, mid', hl, hm⟩ := bind_eq_ok.1 hm
    obtain ⟨rfl, rfl⟩ := pure_eq_ok.1 hm
    obtain ⟨used, rfl, hentries⟩ := commaList_sound .rightBrace (property_sound h) hl
    exact ⟨_, rfl, .object hentries⟩
  case leftBracket =>
    obtain ⟨items, mid', hl, hm⟩ := bind_eq_ok.1 hm
    obtain ⟨rfl, rfl⟩ := pure_eq_ok.1 hm
    obtain ⟨used, rfl, hitems⟩ := commaList_sound .rightBracket h hl
    exact ⟨_, rfl, .array hitems⟩
  all_goals cases hm

theorem call_sound :
    Sound (call expr template) (Call phrase leaf) := by
  intro ts n rest hm
  obtain ⟨callee, mid, hp, hm⟩ := bind_eq_ok.1 hm
  obtain ⟨suffixes, mid', hs, hm⟩ := bind_eq_ok.1 hm
  obtain ⟨used, rfl, hcallee⟩ := primary_sound h hopens hleaf hp
  obtain ⟨more, rfl, hsuffixes⟩ := many_sound (suffix_sound h) hs
  cases suffixes with
  | nil =>
    obtain ⟨rfl, rfl⟩ := pure_eq_ok.1 hm
    cases hsuffixes
    exact ⟨used, rfl, .bare hcallee⟩
  | cons suffix suffixes =>
    obtain ⟨rfl, rfl⟩ := pure_eq_ok.1 hm
    exact ⟨used ++ more, by simp, .trailed hcallee hsuffixes (List.cons_ne_nil _ _)⟩

theorem multiplicative_sound :
    Sound (multiplicative expr template) (Multiplicative phrase leaf) :=
  (chain_sound multiplicativeOperator? .arithmetic (call_sound h hopens hleaf)).mono fun _ _ => .mk

theorem unary_sound :
    Sound (unary expr template) (Unary (Multiplicative phrase leaf)) := by
  intro ts n rest hm
  obtain ⟨signs, mid, hs, hm⟩ := bind_eq_ok.1 hm
  obtain ⟨operand, mid', ho, hm⟩ := bind_eq_ok.1 hm
  obtain ⟨rfl, rfl⟩ := pure_eq_ok.1 hm
  rw [many, get_bind] at hs
  obtain ⟨used, rfl, hused⟩ := repeated_sign_sound hs
  obtain ⟨more, rfl, hoperand⟩ := multiplicative_sound h hopens hleaf ho
  exact ⟨used ++ more, by simp, hused hoperand⟩

theorem additive_sound :
    Sound (additive expr template) (Additive phrase leaf) :=
  (chain_sound additiveOperator? .arithmetic (unary_sound h hopens hleaf)).mono fun _ _ => .mk

theorem comparison_sound :
    Sound (comparison expr template) (Comparison (Additive phrase leaf)) := by
  intro ts n rest hm
  have hside := additive_sound h hopens hleaf
  obtain ⟨left, mid, hl, hm⟩ := bind_eq_ok.1 hm
  obtain ⟨r, mid', ho, hm⟩ := bind_eq_ok.1 hm
  obtain ⟨used, rfl, hleft⟩ := hside hl
  have hstep := operand_sound comparisonOperator? hside ho
  cases r with
  | none =>
    obtain ⟨rfl, rfl⟩ := pure_eq_ok.1 hm
    subst hstep
    exact ⟨used, rfl, .single hleft⟩
  | some r =>
    obtain ⟨op, right⟩ := r
    obtain ⟨rfl, rfl⟩ := pure_eq_ok.1 hm
    obtain ⟨more, rfl, hright⟩ := hstep
    exact ⟨used ++ more, by simp, .compared hleft hright⟩

theorem disjunction_sound :
    Sound (disjunction expr template) (Disjunction phrase leaf) := by
  have hconj : Sound (conjunction expr template) (Conjunction phrase leaf) :=
    (chain_sound (only? .andAnd) (listed .conjunction) (comparison_sound h hopens hleaf)).mono
      fun _ _ => .mk
  exact (chain_sound (only? .orOr) (listed .disjunction) hconj).mono fun _ _ => .mk

end Levels

theorem assigned_sound {expr : Parser Node} {phrase : Tokens → Node → Prop}
    (h : Sound expr phrase) {ts rest : Tokens} {n : Node} (hm : assigned expr ts = .ok (n, rest)) :
    ∃ nl used, Newlines nl ∧ phrase used n ∧ ts = nl ++ (used ++ rest) := by
  rw [assigned, skipNewlines_bind] at hm
  obtain ⟨nl, hnl, hts⟩ := exists_newlines ts
  obtain ⟨used, hused, hn⟩ := h hm
  exact ⟨nl, used, hnl, hn, by rw [← hused, ← hts]⟩

end Grammar

namespace Phrase

/-- Predicates on expressions and on templates that are kept by the productions. -/
structure Closed (P : Tokens → Node → Prop) (Q : String → Position → Node → Prop) : Prop where
  opens : ∀ ⦃ts n⦄, P ts n → Opens opensExpression ts
  assignment : ∀ ⦃name p q nl ts n⦄, Newlines nl → P ts n →
    P ((.identifier name, p) :: (.equals, q) :: (nl ++ ts)) ⟨.assignment false name n, p⟩
  declaration : ∀ ⦃name p q r nl ts n⦄, Newlines nl → P ts n →
    P ((.kwMut, p) :: (.identifier name, q) :: (.equals, r) :: (nl ++ ts))
      ⟨.assignment true name n, p⟩
  propertyAssignment : ∀ ⦃left p nl ts target object name n⦄, Disjunction P Q left target →
    Target target object name → Newlines nl → P ts n →
    P (left ++ ((.equals, p) :: (nl ++ ts))) ⟨.propertyAssignment object name n, target.position⟩
  disjunction : ∀ ⦃ts n⦄, Disjunction P Q ts n → P ts n
  template : ∀ ⦃raw p parts⦄,
    List.Forall₂ (Segment P) (Template.segments raw.toList (p.advance '"')) parts →
    Q raw p ⟨.template parts, p⟩

theorem Closed.derivations : Closed Expression Template where
  opens _ _ := Expression.opens
  assignment _ _ _ _ _ _ hnl h := .assignment hnl h
  declaration _ _ _ _ _ _ _ hnl h := .declaration hnl h
  propertyAssignment _ _ _ _ _ _ _ _ hleft htarget hnl h :=
    .propertyAssignment hleft htarget hnl h
  disjunction _ _ h := .disjunction h
  template _ _ _ h := .mk h

end Phrase

namespace Grammar

open Scriptlet.Parser

/-- The reader of expressions takes off expressions, however deep it may go. -/
theorem expression_sound {P : Tokens → Node → Prop} {Q : String → Position → Node → Prop}
    (hclosed : Closed P Q) {template : String → Position → Except SyntaxError Node}
    (hleaf : ∀ ⦃raw p n⦄, template raw p = .ok n → Q raw p n) (k : Nat) :
    Sound (expression template k) P := by
  induction k with
  | zero =>
    intro ts n rest hm
    cases hm
  | succ k ih =>
    intro ts n rest hm
    have hdisj := disjunction_sound ih hclosed.opens hleaf
    rw [expression, level, get_bind] at hm
    split at hm
    · next p more =>
      rw [set_bind] at hm
      obtain ⟨name, mid, hi, hm⟩ := bind_eq_ok.1 hm
      obtain ⟨u, mid', hd, hm⟩ := bind_eq_ok.1 hm
      obtain ⟨value, mid'', ha, hm⟩ := bind_eq_ok.1 hm
      obtain ⟨rfl, rfl⟩ := pure_eq_ok.1 hm
      obtain ⟨q, rfl⟩ := identifier_eq_ok.1 hi
      obtain ⟨r, hequals⟩ := discard_eq_ok.1 hd
      rw [expect_eq_ok] at hequals
      obtain ⟨nl, used, hnl, hvalue, rfl⟩ := assigned_sound ih ha
      subst hequals
      exact ⟨_, by simp, hclosed.declaration (q := q) (r := r) hnl hvalue⟩
    · next name p q more =>
      rw [set_bind] at hm
      obtain ⟨value, mid, ha, hm⟩ := bind_eq_ok.1 hm
      obtain ⟨rfl, rfl⟩ := pure_eq_ok.1 hm
      obtain ⟨nl, used, hnl, hvalue, rfl⟩ := assigned_sound ih ha
      exact ⟨_, by simp, hclosed.assignment (q := q) hnl hvalue⟩
    · rw [unnamed] at hm
      obtain ⟨left, mid, hl, hm⟩ := bind_eq_ok.1 hm
      obtain ⟨used, hts, hleft⟩ := hdisj hl
      rw [peek_bind] at hm
      split at hm
      · next hequals =>
        obtain ⟨⟨object, name⟩, mid', ht, hm⟩ := bind_eq_ok.1 hm
        obtain ⟨htarget, rfl⟩ := lift_eq_ok.1 ht
        obtain ⟨u, mid', hd, hm⟩ := bind_eq_ok.1 hm
        obtain ⟨value, mid'', ha, hm⟩ := bind_eq_ok.1 hm
        obtain ⟨rfl, rfl⟩ := pure_eq_ok.1 hm
        obtain ⟨⟨t, p⟩, hn⟩ := discard_eq_ok.1 hd
        rw [next_eq_ok] at hn
        subst hn
        simp only [List.head?_cons, Option.map_some, Option.some.injEq] at hequals
        subst hequals
        obtain ⟨nl, used', hnl, hvalue, rfl⟩ := assigned_sound ih ha
        refine ⟨_, ?_, hclosed.propertyAssignment (p := p) hleft
          (target_eq_ok htarget) hnl hvalue⟩
        simp [hts]
      · obtain ⟨rfl, rfl⟩ := pure_eq_ok.1 hm
        exact ⟨used, hts, hclosed.disjunction hleft⟩

end Grammar
end Scriptlet
