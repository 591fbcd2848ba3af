import Mathlib.Computability.Language
import Scriptlet.Proofs.Syntax.Sealed
/-!
# The rules of lexemes

A rule is a pattern, which is the set of texts that it covers, and says what such a text is. Main
statement: a scan takes the longest piece that any rule covers, and it finds nothing only where no
rule covers a piece (`Lexeme.first_isLongest`, `Lexeme.not_covered_of_unrecognized`). What a rule
can cover from a given first character on is said once, in the order in which a scan looks at that
character (`Lexeme.Extent`).
-/
namespace Scriptlet

open Computability

/-! ## Patterns -/

namespace Pattern

open Lexeme

def one (p : Char → Bool) : Language Char :=
  { text : List Char | ∃ c, p c ∧ text = [c] }

def exactly (text : List Char) : Language Char := {text}

/-- Texts of a pattern, one after the other, and at least one of them. -/
def plus (l : Language Char) : Language Char := l * l∗

/-- `[0-9]+` -/
def number : Language Char := plus (one isDecimal)

/-- `[a-zA-Z_][a-zA-Z0-9_]*` -/
def name : Language Char := one startsName * (one continuesName)∗

/-- `'[^']*'` -/
def plain : Language Char :=
  exactly ['\''] * (one (· ≠ '\''))∗ * exactly ['\'']

/-- What stands between the quotes of a template: `([^"\\]|\\.)*` -/
def templateInside : Language Char :=
  (one (fun c => c ≠ '"' && c ≠ '\\') + exactly ['\\'] * one (· ≠ '\n'))∗

/-- A template: `"([^"\\]|\\.)*"` -/
def template : Language Char :=
  exactly ['"'] * templateInside * exactly ['"']

/-- `//[^\n]*` -/
def lineComment : Language Char :=
  exactly ['/', '/'] * (one (· ≠ '\n'))∗

/-- What follows the opening sign of a block comment: `([^*]|\*+[^*/])*\*+/` -/
def commentInside : Language Char :=
  (one (· ≠ '*') + plus (exactly ['*']) * one (fun c => c ≠ '*' && c ≠ '/'))∗ *
    plus (exactly ['*']) * exactly ['/']

/-- A block comment: `/\*([^*]|\*+[^*/])*\*+/` -/
def blockComment : Language Char :=
  exactly ['/', '*'] * commentInside

/-- `[ \t\r\f]+` -/
def blank : Language Char := plus (one isBlank)

/-! ### Membership -/

section Membership

variable {p : Char → Bool} {c : Char} {text : List Char}

theorem mem_exactly {word : List Char} : text ∈ exactly word ↔ text = word := Iff.rfl

theorem mem_kstar_one : text ∈ (one p)∗ ↔ ∀ c ∈ text, p c := by
  constructor
  · intro h
    obtain ⟨pieces, rfl, hpieces⟩ := Language.mem_kstar.1 h
    intro c hc
    obtain ⟨piece, hpiece, hc⟩ := List.mem_flatten.1 hc
    obtain ⟨d, hd, rfl⟩ := hpieces piece hpiece
    exact List.mem_singleton.1 hc ▸ hd
  · intro h
    have hflatten : text = (text.map fun c => [c]).flatten := by
      rw [← List.flatMap_def, List.flatMap_singleton']
    refine Language.mem_kstar.2 ⟨_, hflatten, ?_⟩
    intro piece hpiece
    obtain ⟨c, hc, rfl⟩ := List.mem_map.1 hpiece
    exact ⟨c, h c hc, rfl⟩

theorem cons_mem_one_mul {l : Language Char} : c :: text ∈ one p * l ↔ p c ∧ text ∈ l := by
  constructor
  · intro h
    obtain ⟨_, ⟨d, hd, rfl⟩, more, hmore, heq⟩ := Language.mem_mul.1 h
    cases heq
    exact ⟨hd, hmore⟩
  · rintro ⟨hc, htext⟩
    exact Language.append_mem_mul (a := [c]) ⟨c, hc, rfl⟩ htext

theorem nil_notMem_one_mul {l : Language Char} : [] ∉ one p * l := by
  intro h
  obtain ⟨_, ⟨d, -, rfl⟩, more, -, heq⟩ := Language.mem_mul.1 h
  cases heq

theorem mem_exactly_mul {word : List Char} {l : Language Char} :
    text ∈ exactly word * l ↔ ∃ more ∈ l, text = word ++ more := by
  constructor
  · intro h
    obtain ⟨_, rfl, more, hmore, rfl⟩ := Language.mem_mul.1 h
    exact ⟨more, hmore, rfl⟩
  · rintro ⟨more, hmore, rfl⟩
    exact Language.append_mem_mul rfl hmore

theorem mem_mul_exactly {word : List Char} {l : Language Char} :
    text ∈ l * exactly word ↔ ∃ front ∈ l, text = front ++ word := by
  constructor
  · intro h
    obtain ⟨front, hfront, _, rfl, rfl⟩ := Language.mem_mul.1 h
    exact ⟨front, hfront, rfl⟩
  · rintro ⟨front, hfront, rfl⟩
    exact Language.append_mem_mul hfront rfl

theorem kstar_cases {l : Language Char} (h : text ∈ l∗) :
    text = [] ∨ ∃ piece ∈ l, ∃ more ∈ l∗, text = piece ++ more := by
  rw [← Language.one_add_self_mul_kstar_eq_kstar, Language.mem_add] at h
  rcases h with h | h
  · exact .inl h
  · obtain ⟨piece, hpiece, more, hmore, rfl⟩ := Language.mem_mul.1 h
    exact .inr ⟨piece, hpiece, more, hmore, rfl⟩

theorem append_mem_kstar {l : Language Char} {piece more : List Char} (hpiece : piece ∈ l)
    (hmore : more ∈ l∗) : piece ++ more ∈ l∗ := by
  rw [← Language.one_add_self_mul_kstar_eq_kstar]
  exact .inr (Language.append_mem_mul hpiece hmore)

end Membership

/-! ### Templates -/

theorem cons_mem_templateInside {c : Char} {text : List Char} (hquote : c ≠ '"')
    (hslash : c ≠ '\\') (h : text ∈ templateInside) : c :: text ∈ templateInside := by
  have hpiece : [c] ∈ one (fun c => c ≠ '"' && c ≠ '\\') := ⟨c, by simp [hquote, hslash], rfl⟩
  exact append_mem_kstar (.inl hpiece) h

theorem escape_mem_templateInside {c : Char} {text : List Char} (hc : c ≠ '\n')
    (h : text ∈ templateInside) : '\\' :: c :: text ∈ templateInside := by
  have hpiece : ['\\', c] ∈ exactly ['\\'] * one (· ≠ '\n') :=
    mem_exactly_mul.2 ⟨[c], ⟨c, by simpa using hc, rfl⟩, rfl⟩
  exact append_mem_kstar (.inr hpiece) h

/-- The inside of a template ends at the first quote that no backslash keeps. -/
theorem templateBody_of_mem {text : List Char} (h : text ∈ templateInside) (rest : List Char) :
    Lexeme.templateBody (text ++ '"' :: rest) = (text, '"' :: rest) := by
  obtain ⟨pieces, rfl, hpieces⟩ := Language.mem_kstar.1 h
  clear h
  induction pieces with
  | nil => rfl
  | cons piece pieces ih =>
    rw [List.forall_mem_cons] at hpieces
    rw [List.flatten_cons, List.append_assoc]
    rcases hpieces.1 with ⟨c, hc, rfl⟩ | hescape
    · have hne : c ≠ '"' ∧ c ≠ '\\' := by simpa using hc
      rw [List.singleton_append, Lexeme.templateBody, if_neg hne.1, ih hpieces.2]
      · rfl
      · exact fun _ hslash => absurd hslash hne.2
      · exact fun _ _ hslash => absurd hslash hne.2
    · obtain ⟨_, ⟨c, hc, rfl⟩, rfl⟩ := mem_exactly_mul.1 hescape
      have hne : c ≠ '\n' := by simpa using hc
      change Lexeme.templateBody ('\\' :: c :: (pieces.flatten ++ '"' :: rest)) = _
      rw [Lexeme.templateBody, ih hpieces.2]
      · rfl
      · exact fun hnewline => absurd hnewline hne

theorem mem_of_templateBody {cs text rest : List Char}
    (h : Lexeme.templateBody cs = (text, '"' :: rest)) : text ∈ templateInside := by
  fun_induction Lexeme.templateBody cs generalizing text rest with
  | case1 => cases h
  | case2 => cases h
  | case3 c cs hc body after hbody ih =>
    cases h
    exact escape_mem_templateInside hc (ih hbody)
  | case4 =>
    cases h
    exact Language.nil_mem_kstar _
  | case5 c cs h1 h2 hc body after hbody ih =>
    cases h
    have hslash : c ≠ '\\' := by
      rintro rfl
      cases cs with
      | nil => cases hbody
      | cons d cs => exact h2 d cs rfl rfl
    exact cons_mem_templateInside hc hslash (ih hbody)

/-! ### Block comments -/

theorem star_mem_plus {stars : List Char} (h : stars ∈ (exactly ['*'])∗) :
    '*' :: stars ∈ plus (exactly ['*']) :=
  Language.append_mem_mul (a := ['*']) rfl h

theorem plus_star_cases {stars : List Char} (h : stars ∈ plus (exactly ['*'])) :
    ∃ more ∈ (exactly ['*'])∗, stars = '*' :: more :=
  mem_exactly_mul.1 h

theorem star_cons_mem_plus {stars : List Char} (h : stars ∈ plus (exactly ['*'])) :
    '*' :: stars ∈ plus (exactly ['*']) := by
  obtain ⟨more, hmore, rfl⟩ := plus_star_cases h
  exact star_mem_plus (append_mem_kstar (mem_exactly.2 rfl) hmore)

theorem mem_commentInside {text : List Char} :
    text ∈ commentInside ↔ ∃ front ∈ (one (· ≠ '*') +
        plus (exactly ['*']) * one (fun c => c ≠ '*' && c ≠ '/'))∗,
      ∃ stars ∈ plus (exactly ['*']), text = front ++ (stars ++ ['/']) := by
  rw [commentInside, mem_mul_exactly]
  constructor
  · rintro ⟨body, hbody, rfl⟩
    obtain ⟨front, hfront, stars, hstars, rfl⟩ := Language.mem_mul.1 hbody
    exact ⟨front, hfront, stars, hstars, by rw [List.append_assoc]⟩
  · rintro ⟨front, hfront, stars, hstars, rfl⟩
    exact ⟨front ++ stars, Language.append_mem_mul hfront hstars, by rw [List.append_assoc]⟩

theorem cons_mem_commentInside {c : Char} {text : List Char} (hc : c ≠ '*')
    (h : text ∈ commentInside) : c :: text ∈ commentInside := by
  obtain ⟨front, hfront, stars, hstars, rfl⟩ := mem_commentInside.1 h
  have hpiece : [c] ∈ one (· ≠ '*') := ⟨c, by simpa using hc, rfl⟩
  exact mem_commentInside.2 ⟨c :: front, append_mem_kstar (.inl hpiece) hfront, stars, hstars, rfl⟩

/-- One more star in front joins the stars that follow it, or the character after them. -/
theorem star_cons_mem_commentInside {text : List Char} (hslash : text.head? ≠ some '/')
    (h : text ∈ commentInside) : '*' :: text ∈ commentInside := by
  obtain ⟨front, hfront, stars, hstars, rfl⟩ := mem_commentInside.1 h
  rcases kstar_cases hfront with rfl | ⟨piece, hpiece | hpiece, more, hmore, rfl⟩
  · exact mem_commentInside.2 ⟨[], hfront, '*' :: stars, star_cons_mem_plus hstars, rfl⟩
  · obtain ⟨c, hc, rfl⟩ := hpiece
    have hc' : c ≠ '*' && c ≠ '/' := by
      simp only [decide_eq_true_eq] at hc
      simpa [hc] using hslash
    have hpiece : ['*', c] ∈ plus (exactly ['*']) * one (fun c => c ≠ '*' && c ≠ '/') :=
      Language.append_mem_mul (star_mem_plus (Language.nil_mem_kstar _)) ⟨c, hc', rfl⟩
    refine mem_commentInside.2 ⟨'*' :: c :: more, ?_, stars, hstars, rfl⟩
    exact append_mem_kstar (.inr hpiece) hmore
  · obtain ⟨before, hbefore, last, hlast, rfl⟩ := Language.mem_mul.1 hpiece
    refine mem_commentInside.2 ⟨'*' :: (before ++ last) ++ more, ?_, stars, hstars, rfl⟩
    have hpiece := Language.append_mem_mul (star_cons_mem_plus hbefore) hlast
    exact append_mem_kstar (.inr hpiece) hmore

theorem mem_of_commentBody? {cs text rest : List Char}
    (h : Lexeme.commentBody? cs = some (text, rest)) : text ∈ commentInside := by
  fun_induction Lexeme.commentBody? cs generalizing text rest with
  | case1 => cases h
  | case2 =>
    cases h
    refine mem_commentInside.2 ⟨[], Language.nil_mem_kstar _, ['*'], ?_, rfl⟩
    exact star_mem_plus (Language.nil_mem_kstar _)
  | case3 c cs hc ih =>
    obtain ⟨⟨body, after⟩, hbody, heq⟩ := Option.map_eq_some_iff.1 h
    cases heq
    by_cases hstar : c = '*'
    · subst hstar
      apply star_cons_mem_commentInside ?_ (ih hbody)
      intro hhead
      obtain ⟨more, rfl⟩ := List.head?_eq_some_iff.1 hhead
      have hcovers := Lexeme.commentBody?_covers hbody
      exact hc _ rfl hcovers.symm
    · exact cons_mem_commentInside hstar (ih hbody)

theorem commentBody?_cons {c : Char} {cs : List Char} (h : c = '*' → cs.head? ≠ some '/') :
    Lexeme.commentBody? (c :: cs) =
      (Lexeme.commentBody? cs).map fun (body, after) => (c :: body, after) := by
  rw [Lexeme.commentBody?]
  rintro rest hstar rfl
  exact h hstar rfl

/-- Stars are passed over as long as no slash follows the last of them. -/
theorem commentBody?_stars {stars : List Char} (hstars : stars ∈ (exactly ['*'])∗) {c : Char}
    (hc : c ≠ '/') (cs : List Char) :
    Lexeme.commentBody? (stars ++ c :: cs) =
      (Lexeme.commentBody? (c :: cs)).map fun (body, after) => (stars ++ body, after) := by
  obtain ⟨pieces, rfl, hpieces⟩ := Language.mem_kstar.1 hstars
  clear hstars
  induction pieces with
  | nil => simp
  | cons piece pieces ih =>
    rw [List.forall_mem_cons] at hpieces
    obtain rfl := mem_exactly.1 hpieces.1
    change Lexeme.commentBody? ('*' :: (pieces.flatten ++ c :: cs)) = _
    rw [commentBody?_cons, ih hpieces.2, Option.map_map]
    · rfl
    · intro _ hhead
      cases pieces with
      | nil =>
        simp only [List.flatten_nil, List.nil_append, List.head?_cons, Option.some.injEq] at hhead
        exact hc hhead
      | cons piece pieces =>
        obtain rfl := mem_exactly.1 (hpieces.2 piece List.mem_cons_self)
        cases hhead

theorem commentBody?_closing {stars : List Char} (hstars : stars ∈ (exactly ['*'])∗)
    (rest : List Char) :
    Lexeme.commentBody? (stars ++ '*' :: '/' :: rest) = some (stars ++ ['*', '/'], rest) := by
  rw [commentBody?_stars hstars (by decide)]
  rfl

theorem plus_star_last {stars : List Char} (h : stars ∈ plus (exactly ['*'])) :
    ∃ more ∈ (exactly ['*'])∗, stars = more ++ ['*'] := by
  rw [plus, ← Language.mul_self_kstar_comm] at h
  exact mem_mul_exactly.1 h

/-- The inside of a block comment ends at the first star with a slash behind it. -/
theorem commentBody?_of_mem {text : List Char} (h : text ∈ commentInside) (rest : List Char) :
    Lexeme.commentBody? (text ++ rest) = some (text, rest) := by
  obtain ⟨front, hfront, stars, hstars, rfl⟩ := mem_commentInside.1 h
  obtain ⟨pieces, rfl, hpieces⟩ := Language.mem_kstar.1 hfront
  obtain ⟨more, hmore, rfl⟩ := plus_star_last hstars
  clear h hfront hstars
  induction pieces with
  | nil =>
    have hclosing := commentBody?_closing hmore rest
    simpa using hclosing
  | cons piece pieces ih =>
    rw [List.forall_mem_cons] at hpieces
    have ih := ih hpieces.2
    rw [List.flatten_cons, List.append_assoc piece]
    generalize pieces.flatten ++ (more ++ ['*'] ++ ['/']) = text at ih
    rw [List.append_assoc]
    rcases hpieces.1 with ⟨c, hc, rfl⟩ | hpiece
    · rw [List.singleton_append, commentBody?_cons, ih]
      · rfl
      · intro hstar
        exact absurd hstar (by simpa using hc)
    · obtain ⟨before, hbefore, _, ⟨c, hc, rfl⟩, rfl⟩ := Language.mem_mul.1 hpiece
      have hne : c ≠ '*' ∧ c ≠ '/' := by simpa using hc
      have hall : before ∈ (exactly ['*'])∗ := by
        obtain ⟨front, hfront, rfl⟩ := plus_star_cases hbefore
        exact append_mem_kstar (mem_exactly.2 rfl) hfront
      rw [List.append_assoc, List.singleton_append, commentBody?_stars hall hne.2,
        commentBody?_cons (fun h => absurd h hne.1), ih]
      simp

end Pattern

/-- A pattern, and what a text that it covers is. -/
structure Rule where
  pattern : Language Char
  lexeme : List Char → Lexeme

def Rule.literal (text : List Char) (t : Token) : Rule where
  pattern := Pattern.exactly text
  lexeme _ := .token t

namespace Lexeme

def rules : List Rule :=
  Token.keywords.map (fun (word, t) => .literal word.toList t) ++
  Token.signs.map (fun (spelling, t) => .literal spelling t) ++ [
    ⟨Pattern.number, fun text => .token (.number (String.ofList text))⟩,
    ⟨Pattern.name, fun text => .token (.identifier (String.ofList text))⟩,
    ⟨Pattern.plain, fun text => .token (.plain (String.ofList text.tail.dropLast))⟩,
    ⟨Pattern.template, fun text => .token (.template (String.ofList text.tail.dropLast))⟩,
    ⟨Pattern.lineComment, fun _ => .skipped⟩,
    ⟨Pattern.blockComment, fun _ => .skipped⟩,
    ⟨Pattern.blank, fun _ => .skipped⟩]

/-! ## What a rule can cover -/

section Classes

variable {c : Char}

theorem not_isBlank_of_isDecimal (h : isDecimal c) : ¬ isBlank c := by
  intro hblank
  simp only [isBlank, Bool.or_eq_true, decide_eq_true_eq] at hblank
  rcases hblank with ((rfl | rfl) | rfl) | rfl <;> revert h <;> decide

theorem not_isBlank_of_startsName (h : startsName c) : ¬ isBlank c := by
  intro hblank
  simp only [isBlank, Bool.or_eq_true, decide_eq_true_eq] at hblank
  rcases hblank with ((rfl | rfl) | rfl) | rfl <;> revert h <;> decide

theorem not_isDecimal_of_startsName (h : startsName c) : ¬ isDecimal c := by
  intro hdecimal
  simp only [isDecimal, startsName, Bool.and_eq_true, Bool.or_eq_true, decide_eq_true_eq,
    Char.le_def, UInt32.le_iff_toNat_le] at h hdecimal
  rcases h with (h | h) | rfl
  · have := hdecimal.2.trans_lt (by decide : '9'.val.toNat < 'a'.val.toNat)
    omega
  · have := hdecimal.2.trans_lt (by decide : '9'.val.toNat < 'A'.val.toNat)
    omega
  · revert hdecimal
    decide

/-- A character that begins no lexeme but a sign or a comment. -/
def startsSign (c : Char) : Bool :=
  !isBlank c && !isDecimal c && !startsName c && c ≠ '\'' && c ≠ '"'

theorem startsSign_iff : startsSign c ↔
    ¬ isBlank c ∧ ¬ isDecimal c ∧ ¬ startsName c ∧ c ≠ '\'' ∧ c ≠ '"' := by
  simp [startsSign, and_assoc]

theorem keywords_are_names : ∀ k ∈ Token.keywords,
    k.1.toList.head?.all startsName ∧ k.1.toList.all continuesName := by
  decide

theorem signs_start : ∀ s ∈ Token.signs, s.1.head?.all startsSign := by
  decide

end Classes

/-- The texts that a rule can cover after the first character. The cases are in the order in which
a scan tells them apart. -/
def Extent (c : Char) (more : List Char) : Prop :=
  if isBlank c then ∀ d ∈ more, isBlank d
  else if isDecimal c then ∀ d ∈ more, isDecimal d
  else if startsName c then ∀ d ∈ more, continuesName d
  else if c = '\'' then ∃ body, (∀ d ∈ body, d ≠ '\'') ∧ more = body ++ ['\'']
  else if c = '"' then ∃ body ∈ Pattern.templateInside, more = body ++ ['"']
  else (∃ s ∈ Token.signs, s.1 = c :: more) ∨
    c = '/' ∧ (∃ body, (∀ d ∈ body, d ≠ '\n') ∧ more = '/' :: body) ∨
    c = '/' ∧ ∃ body ∈ Pattern.commentInside, more = '*' :: body

section Extent

variable {c : Char} {more : List Char}

theorem extent_blank (hc : isBlank c) : Extent c more ↔ ∀ d ∈ more, isBlank d := by
  rw [Extent, if_pos hc]

theorem extent_decimal (hc : isDecimal c) : Extent c more ↔ ∀ d ∈ more, isDecimal d := by
  rw [Extent, if_neg (not_isBlank_of_isDecimal hc), if_pos hc]

theorem extent_name (hc : startsName c) : Extent c more ↔ ∀ d ∈ more, continuesName d := by
  rw [Extent, if_neg (not_isBlank_of_startsName hc), if_neg (not_isDecimal_of_startsName hc),
    if_pos hc]

theorem extent_sign (hc : startsSign c) : Extent c more ↔
    (∃ s ∈ Token.signs, s.1 = c :: more) ∨
      c = '/' ∧ (∃ body, (∀ d ∈ body, d ≠ '\n') ∧ more = '/' :: body) ∨
      c = '/' ∧ ∃ body ∈ Pattern.commentInside, more = '*' :: body := by
  obtain ⟨hblank, hdecimal, hname, hquote, hdouble⟩ := startsSign_iff.1 hc
  rw [Extent, if_neg hblank, if_neg hdecimal, if_neg hname, if_neg hquote, if_neg hdouble]

theorem extent_of_mem {rule : Rule} (hrule : rule ∈ rules) (h : c :: more ∈ rule.pattern) :
    Extent c more := by
  simp only [rules, List.mem_append, List.mem_map, List.mem_cons, List.not_mem_nil, or_false]
    at hrule
  rcases hrule with (⟨k, hk, rfl⟩ | ⟨s, hs, rfl⟩) | rfl | rfl | rfl | rfl | rfl | rfl | rfl
  · have hword := keywords_are_names k hk
    rw [← Pattern.mem_exactly.1 h, List.head?_cons, Option.all_some, List.all_cons,
      Bool.and_eq_true, List.all_eq_true] at hword
    exact (extent_name hword.1).2 hword.2.2
  · have hsign := signs_start s hs
    rw [← Pattern.mem_exactly.1 h, List.head?_cons, Option.all_some] at hsign
    exact (extent_sign hsign).2 (.inl ⟨s, hs, (Pattern.mem_exactly.1 h).symm⟩)
  · obtain ⟨hc, hmore⟩ := Pattern.cons_mem_one_mul.1 h
    exact (extent_decimal hc).2 (Pattern.mem_kstar_one.1 hmore)
  · obtain ⟨hc, hmore⟩ := Pattern.cons_mem_one_mul.1 h
    exact (extent_name hc).2 (Pattern.mem_kstar_one.1 hmore)
  · obtain ⟨front, hfront, heq⟩ := Pattern.mem_mul_exactly.1 h
    obtain ⟨body, hbody, rfl⟩ := Pattern.mem_exactly_mul.1 hfront
    cases heq
    exact ⟨body, fun d hd => by simpa using Pattern.mem_kstar_one.1 hbody d hd, rfl⟩
  · obtain ⟨front, hfront, heq⟩ := Pattern.mem_mul_exactly.1 h
    obtain ⟨body, hbody, rfl⟩ := Pattern.mem_exactly_mul.1 hfront
    cases heq
    exact ⟨body, hbody, rfl⟩
  · obtain ⟨body, hbody, heq⟩ := Pattern.mem_exactly_mul.1 h
    cases heq
    refine (extent_sign (by decide)).2 (.inr (.inl ⟨rfl, body, fun d hd => ?_, rfl⟩))
    simpa using Pattern.mem_kstar_one.1 hbody d hd
  · obtain ⟨body, hbody, heq⟩ := Pattern.mem_exactly_mul.1 h
    cases heq
    exact (extent_sign (by decide)).2 (.inr (.inr ⟨rfl, body, hbody, rfl⟩))
  · obtain ⟨hc, hmore⟩ := Pattern.cons_mem_one_mul.1 h
    exact (extent_blank hc).2 (Pattern.mem_kstar_one.1 hmore)

end Extent

theorem ne_nil_of_mem {rule : Rule} (hrule : rule ∈ rules) {text : List Char}
    (h : text ∈ rule.pattern) : text ≠ [] := by
  rintro rfl
  simp only [rules, List.mem_append, List.mem_map, List.mem_cons, List.not_mem_nil, or_false]
    at hrule
  rcases hrule with (⟨k, hk, rfl⟩ | ⟨s, hs, rfl⟩) | rfl | rfl | rfl | rfl | rfl | rfl | rfl
  · have hwords : ∀ k ∈ Token.keywords, k.1.toList ≠ [] := by decide
    exact hwords k hk (Pattern.mem_exactly.1 h).symm
  · exact signs_ne_nil s hs (Pattern.mem_exactly.1 h).symm
  · exact Pattern.nil_notMem_one_mul h
  · exact Pattern.nil_notMem_one_mul h
  · obtain ⟨front, -, heq⟩ := Pattern.mem_mul_exactly.1 h
    simp at heq
  · obtain ⟨front, -, heq⟩ := Pattern.mem_mul_exactly.1 h
    simp at heq
  · obtain ⟨body, -, heq⟩ := Pattern.mem_exactly_mul.1 h
    cases heq
  · obtain ⟨body, -, heq⟩ := Pattern.mem_exactly_mul.1 h
    cases heq
  · exact Pattern.nil_notMem_one_mul h

/-! ## The longest piece -/

section Longest

variable {c : Char} {cs more : List Char}

theorem takeWhile_of_isFront {p : Char → Bool} (hmore : ∀ d ∈ more, p d) (h : more <+: cs) :
    more.length ≤ (cs.takeWhile p).length := by
  obtain ⟨rest, rfl⟩ := h
  rw [List.takeWhile_append_of_pos hmore, List.length_append]
  omega

theorem length_run {p : Char → Bool} (make : List Char → Lexeme) (hmore : ∀ d ∈ more, p d)
    (h : more <+: cs) : (c :: more).length ≤ (run p make c cs).text.length := by
  have := takeWhile_of_isFront hmore h
  simp only [run, List.length_cons]
  omega

theorem plainText_eq {body : List Char} (hbody : ∀ d ∈ body, d ≠ '\'') (rest : List Char) :
    plainText (body ++ '\'' :: rest) =
      ⟨.token (.plain (String.ofList body)), '\'' :: body ++ ['\''], rest⟩ := by
  have hall : ∀ d ∈ body, decide (d ≠ '\'') = true := fun d hd => decide_eq_true (hbody d hd)
  unfold plainText
  rw [List.takeWhile_append_of_pos hall, List.dropWhile_append_of_pos hall]
  simp

theorem templateText_eq {body : List Char} (hbody : body ∈ Pattern.templateInside)
    (rest : List Char) :
    templateText (body ++ '"' :: rest) =
      ⟨.token (.template (String.ofList body)), '"' :: body ++ ['"'], rest⟩ := by
  unfold templateText
  rw [Pattern.templateBody_of_mem hbody]
  rfl

/-- Of the signs that a text starts with, the longest is found first. -/
theorem length_sign {s : List Char × Token} (hs : s ∈ Token.signs) (h : s.1 <+: c :: cs) :
    (sign c cs).lexeme ≠ .unrecognized ∧ s.1.length ≤ (sign c cs).text.length := by
  have hsorted : Token.signs.Pairwise fun a b => b.1.length ≤ a.1.length := by decide
  have hspelled : s.1.isPrefixOf (c :: cs) = true := List.isPrefixOf_iff_prefix.2 h
  unfold sign
  cases hfind : Token.signs.find? fun (spelling, _) => spelling.isPrefixOf (c :: cs) with
  | none => exact absurd hspelled (List.find?_eq_none.1 hfind s hs)
  | some found =>
    refine ⟨by simp, ?_⟩
    obtain ⟨-, before, after, heq, hbefore⟩ := List.find?_eq_some_iff_append.1 hfind
    rw [heq] at hs hsorted
    rcases List.mem_append.1 hs with hs | hs
    · have := hbefore s hs
      simp [hspelled] at this
    · rcases List.mem_cons.1 hs with rfl | hs
      · exact Nat.le_refl _
      · exact (List.pairwise_cons.1 (List.pairwise_append.1 hsorted).2.1).1 s hs

theorem first_blank (hc : isBlank c) :
    first c cs = run isBlank (fun _ => .skipped) c cs := by
  unfold first
  rw [if_pos hc]

theorem first_decimal (hc : isDecimal c) :
    first c cs = run isDecimal (fun text => .token (.number (String.ofList text))) c cs := by
  unfold first
  rw [if_neg (not_isBlank_of_isDecimal hc), if_pos hc]

theorem first_name (hc : startsName c) :
    first c cs = run continuesName (fun text => .token (.ofWord (String.ofList text))) c cs := by
  unfold first
  rw [if_neg (not_isBlank_of_startsName hc), if_neg (not_isDecimal_of_startsName hc), if_pos hc]

theorem first_quote (cs : List Char) : first '\'' cs = plainText cs := rfl

theorem first_double (cs : List Char) : first '"' cs = templateText cs := rfl

theorem first_eq_sign (hc : startsSign c)
    (hcomment : c = '/' → cs.head? ≠ some '/' ∧ cs.head? ≠ some '*') : first c cs = sign c cs := by
  obtain ⟨hblank, hdecimal, hname, hquote, hdouble⟩ := startsSign_iff.1 hc
  exact first_sign hblank hdecimal hname hquote hdouble hcomment

/-- A slash is a sign, if it opens no comment. -/
theorem first_slash_ne_unrecognized (cs : List Char) :
    (first '/' cs).lexeme ≠ .unrecognized := by
  by_cases hslash : cs.head? = some '/'
  · obtain ⟨cs, rfl⟩ := List.head?_eq_some_iff.1 hslash
    rw [first_slash_slash]
    simp [run]
  by_cases hstar : cs.head? = some '*'
  · obtain ⟨cs, rfl⟩ := List.head?_eq_some_iff.1 hstar
    rw [first_slash_star]
    cases commentBody? cs <;> simp
  · rw [first_eq_sign (by decide) fun _ => ⟨hslash, hstar⟩]
    have hmem : (['/'], Token.slash) ∈ Token.signs := by decide
    exact (length_sign hmem ⟨cs, rfl⟩).1

/-- A scan recognizes what a rule can cover, and goes at least as far. -/
theorem length_first (hmore : Extent c more) (h : more <+: cs) :
    (first c cs).lexeme ≠ .unrecognized ∧ (c :: more).length ≤ (first c cs).text.length := by
  by_cases hblank : isBlank c
  · rw [first_blank hblank]
    exact ⟨by simp [run], length_run _ ((extent_blank hblank).1 hmore) h⟩
  by_cases hdecimal : isDecimal c
  · rw [first_decimal hdecimal]
    exact ⟨by simp [run], length_run _ ((extent_decimal hdecimal).1 hmore) h⟩
  by_cases hname : startsName c
  · rw [first_name hname]
    exact ⟨by simp [run], length_run _ ((extent_name hname).1 hmore) h⟩
  by_cases hquote : c = '\''
  · subst hquote
    obtain ⟨body, hbody, rfl⟩ := hmore
    obtain ⟨rest, rfl⟩ := h
    rw [List.append_assoc, first_quote, List.singleton_append, plainText_eq hbody]
    exact ⟨by simp, by simp⟩
  by_cases hdouble : c = '"'
  · subst hdouble
    obtain ⟨body, hbody, rfl⟩ := hmore
    obtain ⟨rest, rfl⟩ := h
    rw [List.append_assoc, first_double, List.singleton_append, templateText_eq hbody]
    exact ⟨by simp, by simp⟩
  have hc : startsSign c := startsSign_iff.2 ⟨hblank, hdecimal, hname, hquote, hdouble⟩
  rcases (extent_sign hc).1 hmore with ⟨s, hs, hspelling⟩ | ⟨rfl, body, hbody, rfl⟩ |
    ⟨rfl, body, hbody, rfl⟩
  · by_cases hslash : c = '/'
    · subst hslash
      have halone : ∀ s ∈ Token.signs, s.1.head? = some '/' → s.1.length = 1 := by decide
      rw [← hspelling, halone s hs (by rw [hspelling]; rfl)]
      exact ⟨first_slash_ne_unrecognized cs, List.length_pos_iff.2 (first_text_ne_nil '/' cs)⟩
    · rw [first_eq_sign hc (fun h => absurd h hslash), ← hspelling]
      apply length_sign hs
      rw [hspelling]
      exact (List.prefix_cons_inj c).2 h
  · obtain ⟨rest, rfl⟩ := h
    rw [List.cons_append, first_slash_slash]
    refine ⟨by simp [run], length_run _ ?_ (List.prefix_append ('/' :: body) rest)⟩
    exact List.forall_mem_cons.2 ⟨by decide, fun d hd => decide_eq_true (hbody d hd)⟩
  · obtain ⟨rest, rfl⟩ := h
    rw [List.cons_append, first_slash_star, Pattern.commentBody?_of_mem hbody]
    exact ⟨by simp, by simp⟩

/-- What a scan recognizes is what a rule says of a text that it covers. -/
def Covered (scan : Scan) : Prop :=
  ∃ rule ∈ rules, scan.text ∈ rule.pattern ∧ rule.lexeme scan.text = scan.lexeme

theorem run_covered {p : Char → Bool} {make : List Char → Lexeme} {l : Language Char}
    (hrule : ⟨l, make⟩ ∈ rules) (hmem : ∀ text, (∀ d ∈ text, p d) → c :: text ∈ l) :
    Covered (run p make c cs) :=
  ⟨⟨l, make⟩, hrule, hmem _ fun _ hd => List.mem_takeWhile_imp hd, rfl⟩

theorem word_covered {text : List Char} (htext : text ∈ Pattern.name) (rest : List Char) :
    Covered ⟨.token (.ofWord (String.ofList text)), text, rest⟩ := by
  cases hword : Token.keywords.lookup (String.ofList text) with
  | none =>
    refine ⟨⟨Pattern.name, fun text => .token (.identifier (String.ofList text))⟩, by simp [rules],
      htext, ?_⟩
    simp only [Token.ofWord, hword, Option.getD_none]
  | some t =>
    obtain ⟨before, after, hmem, -⟩ := List.lookup_eq_some_iff.1 hword
    have hrule : Rule.literal text t ∈ rules := by
      simp only [rules, List.mem_append, List.mem_map]
      refine .inl (.inl ⟨_, hmem ▸ List.mem_append_right _ List.mem_cons_self, ?_⟩)
      simp only [String.toList_ofList]
    refine ⟨_, hrule, rfl, ?_⟩
    simp only [Rule.literal, Token.ofWord, hword, Option.getD_some]

theorem plainText_covered (h : (plainText cs).lexeme ≠ .unrecognized) :
    Covered (plainText cs) := by
  have hall : ∀ d ∈ cs.takeWhile (· ≠ '\''), decide (d ≠ '\'') = true :=
    fun _ hd => List.mem_takeWhile_imp (p := fun d => decide (d ≠ '\'')) hd
  unfold plainText at h ⊢
  split at h
  · next quote rest hdrop =>
    obtain rfl := eq_quote_of_dropWhile hdrop
    refine ⟨⟨Pattern.plain, fun text => .token (.plain (String.ofList text.tail.dropLast))⟩,
      by simp [rules], ?_, by simp⟩
    exact Language.append_mem_mul
      (Language.append_mem_mul (a := ['\'']) rfl (Pattern.mem_kstar_one.2 hall)) rfl
  · exact absurd rfl h

theorem templateText_covered (h : (templateText cs).lexeme ≠ .unrecognized) :
    Covered (templateText cs) := by
  unfold templateText at h ⊢
  split at h
  · next body rest hbody =>
    refine ⟨⟨Pattern.template, fun text => .token (.template (String.ofList text.tail.dropLast))⟩,
      by simp [rules], ?_, by simp⟩
    exact Language.append_mem_mul
      (Language.append_mem_mul (a := ['"']) rfl (Pattern.mem_of_templateBody hbody)) rfl
  · exact absurd rfl h

theorem sign_covered (h : (sign c cs).lexeme ≠ .unrecognized) : Covered (sign c cs) := by
  unfold sign at h ⊢
  split at h
  · next spelling t hfind =>
    have hrule : Rule.literal spelling t ∈ rules := by
      simp only [rules, List.mem_append, List.mem_map]
      exact .inl (.inr ⟨_, List.mem_of_find?_eq_some hfind, rfl⟩)
    exact ⟨_, hrule, rfl, rfl⟩
  · exact absurd rfl h

theorem first_covered (h : (first c cs).lexeme ≠ .unrecognized) : Covered (first c cs) := by
  by_cases hblank : isBlank c
  · rw [first_blank hblank]
    refine run_covered (l := Pattern.blank) (by simp [rules]) fun text htext => ?_
    exact Pattern.cons_mem_one_mul.2 ⟨hblank, Pattern.mem_kstar_one.2 htext⟩
  by_cases hdecimal : isDecimal c
  · rw [first_decimal hdecimal]
    refine run_covered (l := Pattern.number) (by simp [rules]) fun text htext => ?_
    exact Pattern.cons_mem_one_mul.2 ⟨hdecimal, Pattern.mem_kstar_one.2 htext⟩
  by_cases hname : startsName c
  · rw [first_name hname]
    refine word_covered (Pattern.cons_mem_one_mul.2 ⟨hname, Pattern.mem_kstar_one.2 ?_⟩) _
    exact fun _ hd => List.mem_takeWhile_imp hd
  by_cases hquote : c = '\''
  · subst hquote
    exact plainText_covered h
  by_cases hdouble : c = '"'
  · subst hdouble
    exact templateText_covered h
  have hc : startsSign c := startsSign_iff.2 ⟨hblank, hdecimal, hname, hquote, hdouble⟩
  by_cases hslash : c = '/' ∧ cs.head? = some '/'
  · obtain ⟨rfl, hhead⟩ := hslash
    obtain ⟨cs, rfl⟩ := List.head?_eq_some_iff.1 hhead
    rw [first_slash_slash]
    refine ⟨⟨Pattern.lineComment, fun _ => .skipped⟩, by simp [rules], ?_, rfl⟩
    refine Language.append_mem_mul (a := ['/', '/']) rfl (Pattern.mem_kstar_one.2 ?_)
    exact fun _ hd => List.mem_takeWhile_imp (p := fun d => decide (d ≠ '\n')) hd
  by_cases hstar : c = '/' ∧ cs.head? = some '*' ∧ (commentBody? cs.tail).isSome
  · obtain ⟨rfl, hhead, hclosed⟩ := hstar
    obtain ⟨cs, rfl⟩ := List.head?_eq_some_iff.1 hhead
    obtain ⟨⟨body, rest⟩, hbody⟩ := Option.isSome_iff_exists.1 hclosed
    rw [List.tail_cons] at hbody
    rw [first_slash_star, hbody]
    refine ⟨⟨Pattern.blockComment, fun _ => .skipped⟩, by simp [rules], ?_, rfl⟩
    exact Language.append_mem_mul (a := ['/', '*']) rfl (Pattern.mem_of_commentBody? hbody)
  -- Neither comment: the slash is a sign, as every other character that is left.
  have hsign : first c cs = sign c cs := by
    by_cases hopen : c = '/' ∧ cs.head? = some '*'
    · obtain ⟨rfl, hhead⟩ := hopen
      obtain ⟨cs, rfl⟩ := List.head?_eq_some_iff.1 hhead
      have hnone : commentBody? cs = none := by simpa using hstar
      rw [first_slash_star, hnone]
      rfl
    · apply first_eq_sign hc
      rintro rfl
      exact ⟨fun hhead => hslash ⟨rfl, hhead⟩, fun hhead => hopen ⟨rfl, hhead⟩⟩
  rw [hsign] at h ⊢
  exact sign_covered h

/-- A piece at the front of a text, and what it is, by the rules: no rule covers a longer one, and a
reserved word is no name. -/
structure IsLongest (source text : List Char) (lexeme : Lexeme) : Prop where
  front : text <+: source
  covered : ∃ rule ∈ rules, text ∈ rule.pattern ∧ rule.lexeme text = lexeme
  longest : ∀ rule ∈ rules, ∀ other ∈ rule.pattern, other <+: source → other.length ≤ text.length
  reserved : ∀ k ∈ Token.keywords, k.1.toList = text → lexeme = .token k.2

/-- What a scan recognizes is the longest piece that a rule covers. -/
theorem first_isLongest (h : (first c cs).lexeme ≠ .unrecognized) :
    IsLongest (c :: cs) (first c cs).text (first c cs).lexeme where
  front := ⟨_, first_covers c cs⟩
  covered := first_covered h
  longest rule hrule other hother hfront := by
    obtain ⟨d, more, rfl⟩ := List.exists_cons_of_ne_nil (ne_nil_of_mem hrule hother)
    obtain ⟨rfl, hmore⟩ := List.cons_prefix_cons.1 hfront
    exact (length_first (extent_of_mem hrule hother) hmore).2
  reserved k hk htext := by
    have hword : ∀ k ∈ Token.keywords, Token.ofWord k.1 = k.2 := by decide
    have hcover := first_covers c cs
    have hname := (keywords_are_names k hk).1
    rw [htext] at hname
    obtain ⟨d, more, htext'⟩ := List.exists_cons_of_ne_nil (first_text_ne_nil c cs)
    rw [htext', List.cons_append, List.cons.injEq] at hcover
    obtain ⟨rfl, -⟩ := hcover
    rw [htext', List.head?_cons, Option.all_some] at hname
    rw [first_name hname] at htext ⊢
    have hword := hword k hk
    rw [← String.ofList_toList (s := k.1), htext] at hword
    rw [← hword]
    rfl

/-- Where a scan recognizes nothing, no rule covers a piece. -/
theorem not_covered_of_unrecognized (h : (first c cs).lexeme = .unrecognized) :
    ∀ rule ∈ rules, ∀ text ∈ rule.pattern, ¬ text <+: c :: cs := by
  intro rule hrule text htext hfront
  obtain ⟨d, more, rfl⟩ := List.exists_cons_of_ne_nil (ne_nil_of_mem hrule htext)
  obtain ⟨rfl, hmore⟩ := List.cons_prefix_cons.1 hfront
  exact (length_first (extent_of_mem hrule htext) hmore).1 h

end Longest

end Lexeme
end Scriptlet
