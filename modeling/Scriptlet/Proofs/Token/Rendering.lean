import Scriptlet.Proofs.Token.Rules
/-!
# Tokens that are written out and cut again

A token is well formed if the text that it carries is one that a rule covers. Main statement: well
formed tokens, written with a blank between any two of them, are cut into the same tokens again, and
all tokens that a text is cut into are well formed (`Token.tokenize_render`). What keeps two tokens
apart is the first character after a token: it has to be one that the token does not go on with
(`Token.Scanned.spelling_append`).
-/
namespace Scriptlet

open Lexeme

namespace Token

/-- A token whose text its rule covers. A token without a text has no choice. -/
def WellFormed : Token → Prop
  | number digits => digits.toList ∈ Pattern.number
  | identifier name => name.toList ∈ Pattern.name ∧ name ∉ keywords.map (·.1)
  | plain text => '\'' ∉ text.toList
  | template raw => raw.toList ∈ Pattern.templateInside
  | _ => True

/-- The characters that would make a lexeme longer than the token at its front. -/
def extendedBy (t : Token) (c : Char) : Bool :=
  match t with
  | number _ => isDecimal c
  | identifier _ | kwTrue | kwFalse | kwUndefined | kwFn | kwMut | kwWhile | kwIf | kwElse =>
    continuesName c
  | less | greater | equals | bang => c = '='
  | slash => c = '/' || c = '*'
  | _ => false

theorem wellFormed_of_text?_eq_none {t : Token} (h : t.text? = none) : t.WellFormed := by
  cases t with
  | number | identifier | plain | template => cases h
  | _ => trivial

/-- Tokens as they are written, with a blank between any two of them. -/
def render (tokens : List Token) : List Char :=
  [' '].intercalate (tokens.map spelling)

end Token

/-! ## One token -/

namespace Lexeme

variable {c : Char} {cs text rest : List Char}

theorem run_append {p : Char → Bool} (make : List Char → Lexeme) (htext : ∀ d ∈ text, p d)
    (hrest : ∀ d ∈ rest.head?, ¬ p d) :
    run p make c (text ++ rest) = ⟨make (c :: text), c :: text, rest⟩ := by
  have htake : rest.takeWhile p = [] := by
    cases rest with
    | nil => rfl
    | cons d rest => exact List.takeWhile_cons_of_neg (hrest d rfl)
  have hdrop : rest.dropWhile p = rest := by
    cases rest with
    | nil => rfl
    | cons d rest => exact List.dropWhile_cons_of_neg (hrest d rfl)
  simp only [run, List.takeWhile_append_of_pos htext, List.dropWhile_append_of_pos htext, htake,
    hdrop, List.append_nil]

theorem first_word_append {word : String} (hword : word.toList ∈ Pattern.name)
    (hrest : ∀ d ∈ rest.head?, ¬ continuesName d) :
    ∃ c cs, word.toList ++ rest = c :: cs ∧
      first c cs = ⟨.token (.ofWord word), word.toList, rest⟩ := by
  obtain ⟨_, ⟨c, hc, rfl⟩, text, htext, heq⟩ := Language.mem_mul.1 hword
  refine ⟨c, text ++ rest, by rw [← heq]; rfl, ?_⟩
  rw [first_name hc, run_append _ (Pattern.mem_kstar_one.1 htext) hrest, ← List.singleton_append,
    heq, String.ofList_toList]

theorem keyword_mem_name : ∀ k ∈ Token.keywords, k.1.toList ∈ Pattern.name := by
  intro k hk
  obtain ⟨hstart, hall⟩ := keywords_are_names k hk
  cases hword : k.1.toList with
  | nil =>
    have hne : ∀ k ∈ Token.keywords, k.1.toList ≠ [] := by decide
    exact absurd hword (hne k hk)
  | cons c cs =>
    rw [hword, List.head?_cons, Option.all_some] at hstart
    rw [hword, List.all_cons, Bool.and_eq_true, List.all_eq_true] at hall
    exact Pattern.cons_mem_one_mul.2 ⟨hstart, Pattern.mem_kstar_one.2 hall.2⟩

theorem first_keyword_append {t : Token} (ht : t ∈ Token.keywords.map (·.2))
    (hrest : ∀ d ∈ rest.head?, ¬ continuesName d) :
    ∃ c cs, t.spelling ++ rest = c :: cs ∧ first c cs = ⟨.token t, t.spelling, rest⟩ := by
  have hwords : ∀ k ∈ Token.keywords, Token.ofWord k.1 = k.2 := by decide
  obtain ⟨k, hk, rfl⟩ := List.mem_map.1 ht
  have hfirst := first_word_append (keyword_mem_name k hk) hrest
  rwa [hwords k hk, ← Token.spelling_of_mem_keywords k hk] at hfirst

/-- A sign that is the front of a longer sign, where no equals sign follows. -/
theorem first_before_equals {t : Token} (ht : (c, t) ∈ [('<', .less), ('>', .greater),
    ('=', .equals), ('!', .bang)]) (hrest : ∀ d ∈ rest.head?, d ≠ '=') :
    first c rest = ⟨.token t, [c], rest⟩ := by
  have hsigns : ∀ s ∈ [('<', Token.less), ('>', .greater), ('=', .equals), ('!', .bang)],
      startsSign s.1 ∧ s.1 ≠ '/' := by decide
  obtain ⟨hstart, hslash⟩ := hsigns _ ht
  rw [first_eq_sign hstart fun h => absurd h hslash]
  simp only [List.mem_cons, Prod.mk.injEq, List.not_mem_nil, or_false] at ht
  cases rest with
  | nil => rcases ht with ⟨rfl, rfl⟩ | ⟨rfl, rfl⟩ | ⟨rfl, rfl⟩ | ⟨rfl, rfl⟩ <;> rfl
  | cons d rest =>
    have hd : ('=' == d) = false := beq_eq_false_iff_ne.2 (Ne.symm (hrest d rfl))
    rcases ht with ⟨rfl, rfl⟩ | ⟨rfl, rfl⟩ | ⟨rfl, rfl⟩ | ⟨rfl, rfl⟩ <;>
      simp [sign, Token.signs, List.isPrefixOf, hd]

theorem first_slash_append (hrest : ∀ d ∈ rest.head?, d ≠ '/' ∧ d ≠ '*') :
    first '/' rest = ⟨.token .slash, ['/'], rest⟩ := by
  rw [first_eq_sign (by decide)]
  · simp [sign, Token.signs, List.isPrefixOf]
  · intro _
    exact ⟨fun h => (hrest _ h).1 rfl, fun h => (hrest _ h).2 rfl⟩

/-- A well formed token is scanned as it is written, unless the text after it goes on with it. -/
theorem first_spelling_append {t : Token} (ht : t.WellFormed)
    (hrest : ∀ d ∈ rest.head?, ¬ t.extendedBy d) :
    ∃ c cs, t.spelling ++ rest = c :: cs ∧ first c cs = ⟨.token t, t.spelling, rest⟩ := by
  cases t with
  | number digits =>
    obtain ⟨_, ⟨c, hc, rfl⟩, text, htext, heq⟩ := Language.mem_mul.1 ht
    refine ⟨c, text ++ rest, by rw [Token.spelling, ← heq]; rfl, ?_⟩
    rw [first_decimal hc, run_append _ (Pattern.mem_kstar_one.1 htext) hrest,
      ← List.singleton_append, heq, String.ofList_toList]
    rfl
  | identifier name =>
    have hlookup : Token.keywords.lookup name = none := by
      rw [List.lookup_eq_none_iff]
      intro k hk
      have hne : name ≠ k.1 := fun heq => ht.2 (heq ▸ List.mem_map_of_mem hk)
      simpa using hne
    have hword : Token.ofWord name = .identifier name := by
      rw [Token.ofWord, hlookup, Option.getD_none]
    have hfirst := first_word_append ht.1 hrest
    rwa [hword] at hfirst
  | plain text =>
    have htext : ∀ d ∈ text.toList, d ≠ '\'' := fun d hd heq => ht (heq ▸ hd)
    refine ⟨'\'', text.toList ++ '\'' :: rest, by simp [Token.spelling], ?_⟩
    rw [first_quote, plainText_eq htext, String.ofList_toList]
    rfl
  | template raw =>
    refine ⟨'"', raw.toList ++ '"' :: rest, by simp [Token.spelling], ?_⟩
    rw [first_double, templateText_eq ht, String.ofList_toList]
    rfl
  | kwTrue | kwFalse | kwUndefined | kwFn | kwMut | kwWhile | kwIf | kwElse =>
    exact first_keyword_append (by decide) hrest
  | less | greater | equals | bang =>
    refine ⟨_, rest, rfl, first_before_equals (by decide) fun d hd => ?_⟩
    simpa [Token.extendedBy] using hrest d hd
  | slash =>
    refine ⟨'/', rest, rfl, first_slash_append fun d hd => ?_⟩
    simpa [Token.extendedBy] using hrest d hd
  | _ => exact ⟨_, _, rfl, rfl⟩

theorem first_wellFormed {t : Token} (h : (first c cs).lexeme = .token t) : t.WellFormed := by
  have hfound : (first c cs).lexeme ≠ .unrecognized := by simp [h]
  have hpiece := first_isLongest hfound
  rw [h] at hpiece
  obtain ⟨rule, hrule, htext, hlexeme⟩ := hpiece.covered
  simp only [rules, List.mem_append, List.mem_map, List.mem_cons, List.not_mem_nil, or_false]
    at hrule
  rcases hrule with (⟨k, hk, rfl⟩ | ⟨s, hs, rfl⟩) | rfl | rfl | rfl | rfl | rfl | rfl | rfl <;>
    cases hlexeme
  · have hbare : ∀ k ∈ Token.keywords, k.2.text? = none := by decide
    exact Token.wellFormed_of_text?_eq_none (hbare k hk)
  · have hbare : ∀ s ∈ Token.signs, s.2.text? = none := by decide
    exact Token.wellFormed_of_text?_eq_none (hbare s hs)
  · rwa [Token.WellFormed, String.toList_ofList]
  · refine ⟨by rwa [String.toList_ofList], fun hword => ?_⟩
    obtain ⟨k, hk, heq⟩ := List.mem_map.1 hword
    have hreserved := hpiece.reserved k hk (by rw [heq, String.toList_ofList])
    have hbare : ∀ k ∈ Token.keywords, k.2.text? = none := by decide
    have := hbare k hk
    rw [← Lexeme.token.inj hreserved] at this
    cases this
  · obtain ⟨front, hfront, heq⟩ := Pattern.mem_mul_exactly.1 htext
    obtain ⟨body, hbody, rfl⟩ := Pattern.mem_exactly_mul.1 hfront
    have hquote : '\'' ∉ body := fun hmem => by simpa using Pattern.mem_kstar_one.1 hbody _ hmem
    rw [heq]
    simpa [Token.WellFormed] using hquote
  · obtain ⟨front, hfront, heq⟩ := Pattern.mem_mul_exactly.1 htext
    obtain ⟨body, hbody, rfl⟩ := Pattern.mem_exactly_mul.1 hfront
    rw [heq]
    simpa [Token.WellFormed] using hbody

end Lexeme

/-! ## Lists of tokens -/

namespace Token

variable {t : Token} {rest : List Char} {p : Position} {ts : Tokens}

theorem Scanned.spelling_append (ht : t.WellFormed) (hrest : ∀ d ∈ rest.head?, ¬ t.extendedBy d)
    (h : Scanned rest (p.after t.spelling) ts) : Scanned (t.spelling ++ rest) p ((t, p) :: ts) := by
  obtain ⟨c, cs, heq, hfirst⟩ := first_spelling_append ht hrest
  rw [heq]
  apply Scanned.token
  · rw [hfirst]
  · rw [hfirst]
    exact h

theorem Scanned.blank_cons (hrest : ∀ d ∈ rest.head?, ¬ isBlank d)
    (h : Scanned rest (p.advance ' ') ts) : Scanned (' ' :: rest) p ts := by
  have hfirst : first ' ' rest = ⟨.skipped, [' '], rest⟩ := by
    rw [first_blank (by decide)]
    exact run_append _ (List.forall_mem_nil _) hrest
  apply Scanned.skipped
  · rw [hfirst]
  · rw [hfirst]
    exact h

theorem spelling_starts (ht : t.WellFormed) : ∃ c cs, t.spelling = c :: cs ∧ ¬ isBlank c := by
  have halone : ∀ d ∈ ([] : List Char).head?, ¬ t.extendedBy d := by simp
  obtain ⟨c, cs, heq, hfirst⟩ := first_spelling_append ht halone
  refine ⟨c, cs, by rw [← heq, List.append_nil], fun hblank => ?_⟩
  rw [first_blank hblank] at hfirst
  cases hfirst

theorem not_extendedBy_blank (t : Token) : ¬ t.extendedBy ' ' := by
  cases t <;> exact Bool.false_ne_true

theorem render_cons (t : Token) (tokens : List Token) :
    render (t :: tokens) =
      t.spelling ++ if tokens = [] then [] else ' ' :: render tokens := by
  cases tokens with
  | nil => simp [render]
  | cons u tokens =>
    rw [render, List.map_cons, List.map_cons, List.intercalate_cons_cons, List.append_assoc]
    rfl

theorem head_render {tokens : List Token} (h : ∀ t ∈ tokens, t.WellFormed) :
    ∀ d ∈ (render tokens).head?, ¬ isBlank d := by
  cases tokens with
  | nil => simp [render]
  | cons t tokens =>
    obtain ⟨c, cs, hspelling, hblank⟩ := spelling_starts (h t List.mem_cons_self)
    rw [render_cons, hspelling]
    rintro d ⟨⟩
    exact hblank

theorem exists_scanned_render {tokens : List Token} (h : ∀ t ∈ tokens, t.WellFormed)
    (p : Position) : ∃ ts, Scanned (render tokens) p ts ∧ ts.map (·.1) = tokens := by
  induction tokens generalizing p with
  | nil => exact ⟨[], .done, rfl⟩
  | cons t tokens ih =>
    rw [List.forall_mem_cons] at h
    rw [render_cons]
    split_ifs with hlast
    · subst hlast
      exact ⟨[(t, p)], Scanned.spelling_append h.1 (by simp) .done, rfl⟩
    · obtain ⟨ts, hscan, hts⟩ := ih h.2 ((p.after t.spelling).advance ' ')
      refine ⟨(t, p) :: ts, ?_, by rw [List.map_cons, hts]⟩
      apply Scanned.spelling_append h.1
      · rintro d ⟨⟩
        exact not_extendedBy_blank t
      · exact hscan.blank_cons (head_render h.2)

theorem Scanned.wellFormed {source : List Char} (h : Scanned source p ts) :
    ∀ t ∈ ts, t.1.WellFormed := by
  induction h with
  | done => simp
  | token hlexeme _ ih => exact List.forall_mem_cons.2 ⟨first_wellFormed hlexeme, ih⟩
  | skipped _ _ ih => exact ih

/-- Well formed tokens, written out and cut again, are the same tokens; and the tokens of every text
that can be cut are well formed, so that writing and cutting them once more changes none. -/
theorem tokenize_render (p : Position) :
    (∀ tokens : List Token, (∀ t ∈ tokens, t.WellFormed) →
      ∃ ts, tokenize (render tokens) p = .ok ts ∧ ts.map (·.1) = tokens) ∧
    ∀ source start ts, tokenize source start = .ok ts →
      (∀ t ∈ ts, t.1.WellFormed) ∧
        ∃ again, tokenize (render (ts.map (·.1))) p = .ok again ∧
          again.map (·.1) = ts.map (·.1) := by
  have hrender (tokens : List Token) (h : ∀ t ∈ tokens, t.WellFormed) :
      ∃ ts, tokenize (render tokens) p = .ok ts ∧ ts.map (·.1) = tokens := by
    obtain ⟨ts, hscan, hts⟩ := exists_scanned_render h p
    exact ⟨ts, tokenize_eq_ok.2 hscan, hts⟩
  refine ⟨hrender, fun source start ts hsource => ?_⟩
  have hts := (tokenize_eq_ok.1 hsource).wellFormed
  exact ⟨hts, hrender _ (List.forall_mem_map.2 hts)⟩

/-- Slashes that would open a comment without the blank between them, a word that goes on where a
reserved word ends, and quotes inside of texts. -/
theorem tokenize_render_slashes :
    let tokens := [slash, slash, star, less, equals, bang, newline, kwIf, identifier "iff",
      number "007", plain "/*\n", template "\\\""]
    (∀ t ∈ tokens, t.WellFormed) ∧
      ∃ ts, tokenize (render tokens) .start = .ok ts ∧ ts.map (·.1) = tokens := by
  intro tokens
  have hname : (identifier "iff").WellFormed :=
    ⟨Pattern.cons_mem_one_mul.2 ⟨by decide, Pattern.mem_kstar_one.2 (List.all_eq_true.1 rfl)⟩,
      by decide⟩
  have hnumber : (number "007").WellFormed :=
    Pattern.cons_mem_one_mul.2 ⟨by decide, Pattern.mem_kstar_one.2 (List.all_eq_true.1 rfl)⟩
  have hplain : (plain "/*\n").WellFormed := by
    change '\'' ∉ "/*\n".toList
    decide
  have htemplate : (template "\\\"").WellFormed :=
    Pattern.escape_mem_templateInside (by decide) (Language.nil_mem_kstar _)
  have hwell : ∀ t ∈ tokens, t.WellFormed := by
    simp only [tokens, List.forall_mem_cons]
    refine ⟨?_, ?_, ?_, ?_, ?_, ?_, ?_, ?_, hname, hnumber, hplain, htemplate, by simp⟩
    all_goals exact wellFormed_of_text?_eq_none rfl
  exact ⟨hwell, (tokenize_render .start).1 tokens hwell⟩

end Token
end Scriptlet
