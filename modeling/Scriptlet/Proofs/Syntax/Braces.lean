import Scriptlet.Proofs.Token.Coverage
import Scriptlet.Proofs.Token.Rendering
/-!
# The brace that closes an expression

An expression inside a template ends at a brace that is found without cutting the text into tokens:
braces are counted, except between single quotes. Cutting the text finds a brace as well: the first
closing one that outnumbers the opening ones before it. Main statement: the two are the same brace,
unless there is a comment with a brace or a single quote in it (`Template.code_ends_at_brace_token`,
`Template.code_ends_in_comment`). Texts in double quotes cannot come between the two, since inside
of a template a double quote follows a backslash, and no lexeme begins with one.
-/
namespace Scriptlet

open Lexeme Token

/-! ## Lexemes at the front of a text -/

def Token.Piece.token? (piece : Piece) : Option Token :=
  match piece.lexeme with
  | .token t => some t
  | _ => none

/-- The lexemes at the front of a text, and the text after them. -/
inductive Lexeme.Cut : List Char → List Piece → List Char → Prop
  | nil (rest : List Char) : Cut rest [] rest
  | cons {c : Char} {cs : List Char} {pieces : List Piece} {rest : List Char} :
      (first c cs).lexeme ≠ .unrecognized → Cut (first c cs).rest pieces rest →
      Cut (c :: cs) (⟨(first c cs).text, (first c cs).lexeme⟩ :: pieces) rest

theorem Lexeme.Cut.covers {text rest : List Char} {pieces : List Piece}
    (h : Cut text pieces rest) : text = Piece.joined pieces ++ rest := by
  induction h with
  | nil => rfl
  | @cons c cs pieces rest _ _ ih =>
    rw [Piece.joined_cons, List.append_assoc, ← ih]
    exact (first_covers c cs).symm

namespace Token

/-- With the given number of braces open, a closing brace after the tokens is the first at which the
closing braces outnumber the opening ones. -/
def ClosesNext (depth : Nat) (tokens : List Token) : Prop :=
  (∀ front, front <+: tokens → front.count .rightBrace ≤ depth + front.count .leftBrace) ∧
    depth + tokens.count .leftBrace < tokens.count .rightBrace + 1

instance (depth : Nat) (tokens : List Token) : Decidable (ClosesNext depth tokens) :=
  decidable_of_iff ((∀ front ∈ tokens.inits,
      front.count .rightBrace ≤ depth + front.count .leftBrace) ∧
    depth + tokens.count .leftBrace < tokens.count .rightBrace + 1) (by simp [ClosesNext])

def depthAfter (t : Token) (depth : Nat) : Nat :=
  match t with
  | leftBrace => depth + 1
  | rightBrace => depth - 1
  | _ => depth

theorem ClosesNext.nil {depth : Nat} (h : ClosesNext depth []) : depth = 0 := by
  have := h.2
  simpa using this

theorem ClosesNext.cons {depth : Nat} {t : Token} {tokens : List Token}
    (h : ClosesNext depth (t :: tokens)) :
    (t = .rightBrace → 0 < depth) ∧ ClosesNext (t.depthAfter depth) tokens := by
  obtain ⟨hfronts, hexcess⟩ := h
  have hopen : t = .rightBrace → 0 < depth := by
    rintro rfl
    have := hfronts [.rightBrace] (List.prefix_append [.rightBrace] tokens)
    simpa [Nat.one_le_iff_ne_zero, Nat.pos_iff_ne_zero] using this
  have hcount (front : List Token) :
      (t :: front).count .rightBrace + t.depthAfter depth + front.count .leftBrace =
        front.count .rightBrace + depth + (t :: front).count .leftBrace := by
    rw [List.count_cons, List.count_cons]
    cases t with
    | leftBrace =>
      simp only [depthAfter]
      simp
      omega
    | rightBrace =>
      have := hopen rfl
      simp only [depthAfter]
      simp
      omega
    | _ => simp [depthAfter]
  refine ⟨hopen, fun front hfront => ?_, ?_⟩
  · have := hfronts (t :: front) ((List.prefix_cons_inj t).2 hfront)
    have := hcount front
    omega
  · have := hcount tokens
    omega

end Token

/-! ## Where a template's text can be cut -/

namespace Pattern

theorem uncons_templateInside {c : Char} {text : List Char} (h : c :: text ∈ templateInside) :
    c ≠ '"' ∧ c ≠ '\\' ∧ text ∈ templateInside ∨
      c = '\\' ∧ ∃ d more, text = d :: more ∧ d ≠ '\n' ∧ more ∈ templateInside := by
  obtain hnil | ⟨piece, hpiece | hpiece, more, hmore, heq⟩ := kstar_cases h
  · cases hnil
  · obtain ⟨d, hd, rfl⟩ := hpiece
    cases heq
    have hne : c ≠ '"' ∧ c ≠ '\\' := by simpa using hd
    exact .inl ⟨hne.1, hne.2, hmore⟩
  · obtain ⟨_, ⟨d, hd, rfl⟩, rfl⟩ := mem_exactly_mul.1 hpiece
    cases heq
    exact .inr ⟨rfl, d, more, rfl, by simpa using hd, hmore⟩

/-- What follows a front part of a template's inside is the inside of a template, unless the two
separate a backslash from the character that it keeps. -/
theorem templateInside_of_append {text rest : List Char} (h : text ++ rest ∈ templateInside)
    (hlast : text.getLast? = some '\\' → ∀ c ∈ rest.head?, c = '\n') : rest ∈ templateInside := by
  induction hn : text.length using Nat.strong_induction_on generalizing text with
  | _ n ih =>
    cases text with
    | nil => exact h
    | cons c text =>
      rcases uncons_templateInside h with ⟨-, -, hmore⟩ | ⟨rfl, d, more, hd, hne, hmore⟩
      · refine ih text.length (by simp [← hn]) hmore (fun hbackslash => hlast ?_) rfl
        rw [List.getLast?_cons, hbackslash, Option.getD_some]
      · cases text with
        | nil =>
          obtain rfl : rest = d :: more := hd
          exact absurd (hlast rfl d rfl) hne
        | cons e text =>
          obtain ⟨rfl, rfl⟩ := List.cons_eq_cons.1 hd
          have hshorter : text.length < n := by
            simp only [← hn, List.length_cons]
            omega
          refine ih text.length hshorter hmore (fun hbackslash => hlast ?_) rfl
          rw [List.getLast?_cons, List.getLast?_cons, hbackslash, Option.getD_some,
            Option.getD_some]

end Pattern

/-- A character that opens or closes neither braces nor single quotes. -/
def isNeutral (c : Char) : Bool :=
  c ≠ '\x7b' && c ≠ '\x7d' && c ≠ '\''

theorem neutral_of_notMem {text : List Char} (hopening : '\x7b' ∉ text) (hclosing : '\x7d' ∉ text)
    (hquote : '\'' ∉ text) : ∀ c ∈ text, isNeutral c := by
  intro c hc
  have hneutral : (c ≠ '\x7b' ∧ c ≠ '\x7d') ∧ c ≠ '\'' :=
    ⟨⟨ne_of_mem_of_not_mem hc hopening, ne_of_mem_of_not_mem hc hclosing⟩,
      ne_of_mem_of_not_mem hc hquote⟩
  simpa [isNeutral] using hneutral

namespace Token

variable {t : Token}

theorem last_spelling (ht : t.WellFormed) : t.spelling.getLast? ≠ some '\\' := by
  cases t with
  | number digits =>
    have hslash := Pattern.notMem_of_mem_one_mul (c := '\\') (by decide) (by decide) ht
    exact fun hlast => hslash (List.mem_of_getLast? hlast)
  | identifier name =>
    have hslash := Pattern.notMem_of_mem_one_mul (c := '\\') (by decide) (by decide) ht.1
    exact fun hlast => hslash (List.mem_of_getLast? hlast)
  | plain | template => simp [spelling, List.getLast?_cons]
  | _ => decide

theorem spelling_neutral (ht : t.WellFormed) (htext : ∀ text, t ≠ .plain text ∧ t ≠ .template text)
    (hopening : t ≠ .leftBrace) (hclosing : t ≠ .rightBrace) :
    ∀ c ∈ t.spelling, isNeutral c := by
  cases t with
  | number digits =>
    exact neutral_of_notMem (Pattern.notMem_of_mem_one_mul (by decide) (by decide) ht)
      (Pattern.notMem_of_mem_one_mul (by decide) (by decide) ht)
      (Pattern.notMem_of_mem_one_mul (by decide) (by decide) ht)
  | identifier name =>
    exact neutral_of_notMem (Pattern.notMem_of_mem_one_mul (by decide) (by decide) ht.1)
      (Pattern.notMem_of_mem_one_mul (by decide) (by decide) ht.1)
      (Pattern.notMem_of_mem_one_mul (by decide) (by decide) ht.1)
  | plain text => exact absurd rfl (htext text).1
  | template raw => exact absurd rfl (htext raw).2
  | leftBrace => exact absurd rfl hopening
  | rightBrace => exact absurd rfl hclosing
  | _ => exact List.all_eq_true.1 (by decide)

end Token

namespace Lexeme

variable {c : Char} {cs : List Char}

/-- Only a comment to the end of its line can end with a backslash. -/
theorem last_skipped (h : (first c cs).lexeme = .skipped)
    (hlast : (first c cs).text.getLast? = some '\\') :
    ∀ d ∈ (first c cs).rest.head?, d = '\n' := by
  have hfound : (first c cs).lexeme ≠ .unrecognized := by simp [h]
  have hpiece := first_isLongest hfound
  have hcovers := first_covers c cs
  obtain ⟨rule, hrule, htext, hlexeme⟩ := hpiece.covered
  rw [h] at hlexeme
  generalize (first c cs).text = text at *
  simp only [rules, List.mem_append, List.mem_map, List.mem_cons, List.not_mem_nil, or_false]
    at hrule
  rcases hrule with (⟨k, hk, rfl⟩ | ⟨s, hs, rfl⟩) | rfl | rfl | rfl | rfl | rfl | rfl | rfl
  all_goals try cases hlexeme
  · intro d hd
    by_contra hne
    obtain ⟨rest, hrest⟩ := List.head?_eq_some_iff.1 hd
    have hlonger : text ++ [d] ∈ Pattern.lineComment := by
      obtain ⟨body, hbody, rfl⟩ := Pattern.mem_exactly_mul.1 htext
      refine Pattern.mem_exactly_mul.2 ⟨body ++ [d], Pattern.mem_kstar_one.2 ?_, by simp⟩
      rw [List.forall_mem_append]
      exact ⟨Pattern.mem_kstar_one.1 hbody, by simpa using hne⟩
    have hle := hpiece.longest ⟨Pattern.lineComment, fun _ => .skipped⟩ (by simp [rules]) _ hlonger
      ⟨rest, by rw [← hcovers, hrest]; simp⟩
    rw [List.length_append] at hle
    exact absurd hle (Nat.not_succ_le_self _)
  · obtain ⟨body, hbody, rfl⟩ := Pattern.mem_exactly_mul.1 htext
    obtain ⟨front, -, stars, -, rfl⟩ := Pattern.mem_commentInside.1 hbody
    rw [← List.append_assoc, ← List.append_assoc, List.getLast?_concat] at hlast
    exact absurd hlast (by decide)
  · have hslash := Pattern.notMem_of_mem_one_mul (c := '\\') (by decide) (by decide) htext
    exact absurd (List.mem_of_getLast? hlast) hslash

end Lexeme

/-! ## Reading an expression -/

namespace Template

variable {depth : Nat} {p q start : Position} {cs text rest after source : List Char}
  {more : List (Segment × Position)} {pieces : List Piece}

def inFront (text : List Char) (found : List Char × List (Segment × Position)) :
    List Char × List (Segment × Position) :=
  (text ++ found.1, found.2)

theorem map_inFront (front text : List Char)
    (found : Option (List Char × List (Segment × Position))) :
    (found.map (inFront text)).map (inFront front) = found.map (inFront (front ++ text)) := by
  cases found <;> simp [inFront]

theorem map_inFront_nil (found : Option (List Char × List (Segment × Position))) :
    found.map (inFront []) = found := by
  cases found <;> rfl

/-- One character is passed, unless it is the brace that closes the expression. -/
theorem codeFrom_cons {c : Char} {quoted : Bool}
    (h : ¬ (c = '\x7d' && !quoted && depth = 0) = true) (p : Position) (rest : List Char) :
    codeFrom depth quoted p (c :: rest) =
      (codeFrom
        (if quoted then depth else if c = '\x7b' then depth + 1
          else if c = '\x7d' then depth - 1 else depth)
        (if c = '\'' then !quoted else quoted) (p.advance c) rest).map (inFront [c]) := by
  rw [codeFrom, if_neg h]
  rfl

theorem codeFrom_quoted_cons {c : Char} (hc : c ≠ '\'') (p : Position) (rest : List Char) :
    codeFrom depth true p (c :: rest) =
      (codeFrom depth true (p.advance c) rest).map (inFront [c]) := by
  rw [codeFrom_cons (by simp), if_pos rfl, if_neg hc]

theorem codeFrom_quote (quoted : Bool) (p : Position) (rest : List Char) :
    codeFrom depth quoted p ('\'' :: rest) =
      (codeFrom depth (!quoted) (p.advance '\'') rest).map (inFront ['\'']) := by
  rw [codeFrom_cons (by simp), if_pos rfl]
  simp

theorem codeFrom_neutral_cons {c : Char} (hc : isNeutral c) (p : Position) (rest : List Char) :
    codeFrom depth false p (c :: rest) =
      (codeFrom depth false (p.advance c) rest).map (inFront [c]) := by
  have hc : (c ≠ '\x7b' ∧ c ≠ '\x7d') ∧ c ≠ '\'' := by simpa [isNeutral] using hc
  rw [codeFrom_cons (by simp [hc.1.2]), if_neg hc.2, if_neg hc.1.1, if_neg hc.1.2]
  rfl

theorem codeFrom_leftBrace (p : Position) (rest : List Char) :
    codeFrom depth false p ('\x7b' :: rest) =
      (codeFrom (depth + 1) false (p.advance '\x7b') rest).map (inFront ['\x7b']) :=
  codeFrom_cons (by simp) p rest

theorem codeFrom_rightBrace (hdepth : 0 < depth) (p : Position) (rest : List Char) :
    codeFrom depth false p ('\x7d' :: rest) =
      (codeFrom (depth - 1) false (p.advance '\x7d') rest).map (inFront ['\x7d']) :=
  codeFrom_cons (by simpa using Nat.ne_of_gt hdepth) p rest

theorem codeFrom_quoted (htext : ∀ c ∈ text, c ≠ '\'') (p : Position) (rest : List Char) :
    codeFrom depth true p (text ++ rest) =
      (codeFrom depth true (p.after text) rest).map (inFront text) := by
  induction text generalizing p with
  | nil => exact (map_inFront_nil _).symm
  | cons c text ih =>
    rw [List.forall_mem_cons] at htext
    rw [List.cons_append, codeFrom_quoted_cons htext.1, ih htext.2, map_inFront]
    rfl

theorem codeFrom_neutral (htext : ∀ c ∈ text, isNeutral c) (p : Position) (rest : List Char) :
    codeFrom depth false p (text ++ rest) =
      (codeFrom depth false (p.after text) rest).map (inFront text) := by
  induction text generalizing p with
  | nil => exact (map_inFront_nil _).symm
  | cons c text ih =>
    rw [List.forall_mem_cons] at htext
    rw [List.cons_append, codeFrom_neutral_cons htext.1, ih htext.2, map_inFront]
    rfl

theorem codeFrom_plain (htext : '\'' ∉ text) (p : Position) (rest : List Char) :
    codeFrom depth false p ('\'' :: text ++ ['\''] ++ rest) =
      (codeFrom depth false (p.after ('\'' :: text ++ ['\''])) rest).map
        (inFront ('\'' :: text ++ ['\''])) := by
  have htext : ∀ c ∈ text, c ≠ '\'' := fun c hc heq => htext (heq ▸ hc)
  rw [List.append_assoc, List.cons_append, codeFrom_quote, Bool.not_false, codeFrom_quoted htext,
    List.singleton_append, codeFrom_quote, map_inFront, map_inFront, Position.after_append]
  rfl

/-- A token is passed as a whole, unless it is a template or the brace that closes all. -/
theorem codeFrom_spelling {t : Token} (ht : t.WellFormed) (htemplate : ∀ raw, t ≠ .template raw)
    (hopen : t = .rightBrace → 0 < depth) (p : Position) (rest : List Char) :
    codeFrom depth false p (t.spelling ++ rest) =
      (codeFrom (t.depthAfter depth) false (p.after t.spelling) rest).map
        (inFront t.spelling) := by
  by_cases hplain : ∃ text, t = .plain text
  · obtain ⟨text, rfl⟩ := hplain
    exact codeFrom_plain ht p rest
  by_cases hopening : t = .leftBrace
  · subst hopening
    exact codeFrom_leftBrace p rest
  by_cases hclosing : t = .rightBrace
  · subst hclosing
    exact codeFrom_rightBrace (hopen rfl) p rest
  · have hdepth : t.depthAfter depth = depth := by
      cases t with
      | leftBrace | rightBrace => contradiction
      | _ => rfl
    have htext (text : String) : t ≠ .plain text ∧ t ≠ .template text :=
      ⟨fun h => hplain ⟨text, h⟩, htemplate text⟩
    rw [hdepth]
    exact codeFrom_neutral (Token.spelling_neutral ht htext hopening hclosing) p rest

/-- The reading of an expression ends at the brace that closes it by the tokens. -/
theorem codeFrom_of_cut (hcut : Cut text pieces ('\x7d' :: after))
    (hinside : text ∈ Pattern.templateInside)
    (hcloses : ClosesNext depth (pieces.filterMap Piece.token?))
    (hskipped : ∀ piece ∈ pieces, piece.lexeme = .skipped → ∀ c ∈ piece.text, isNeutral c)
    (p : Position) :
    codeFrom depth false p text = some (Piece.joined pieces,
      segments after ((p.after (Piece.joined pieces)).advance '\x7d')) := by
  generalize hclosing : '\x7d' :: after = stop at hcut
  induction hcut generalizing depth p with
  | nil rest =>
    obtain rfl := hcloses.nil
    rw [← hclosing]
    simp [codeFrom, segments, Piece.joined]
  | @cons c cs pieces rest hfound hcut ih =>
    have hcovers := first_covers c cs
    have hjoined : Piece.joined (⟨(first c cs).text, (first c cs).lexeme⟩ :: pieces) =
        (first c cs).text ++ Piece.joined pieces := Piece.joined_cons _ _
    rw [List.forall_mem_cons] at hskipped
    rw [hjoined, Position.after_append]
    rw [← hcovers] at hinside ⊢
    cases hlexeme : (first c cs).lexeme with
    | unrecognized => exact absurd hlexeme hfound
    | skipped =>
      have hrest := Pattern.templateInside_of_append hinside (last_skipped hlexeme)
      rw [hlexeme] at hcloses
      rw [codeFrom_neutral (hskipped.1 hlexeme), ih hrest hcloses hskipped.2 _ hclosing]
      rfl
    | token t =>
      have ht := first_wellFormed hlexeme
      have htemplate : ∀ raw, t ≠ .template raw := by
        rintro raw rfl
        rw [first_text hlexeme] at hinside
        rcases Pattern.uncons_templateInside hinside with ⟨hquote, -⟩ | ⟨hslash, -⟩
        · exact hquote rfl
        · cases hslash
      have hlast := Token.last_spelling ht
      rw [← first_text hlexeme] at hlast
      have hrest := Pattern.templateInside_of_append hinside fun h => absurd h hlast
      rw [hlexeme] at hcloses
      obtain ⟨hopen, hcloses⟩ := hcloses.cons
      rw [first_text hlexeme, codeFrom_spelling ht htemplate hopen, ← first_text hlexeme,
        ih hrest hcloses hskipped.2 _ hclosing]
      rfl

/-! ## Where expressions begin -/

theorem codeFrom_eq_some {quoted : Bool} (h : codeFrom depth quoted p cs = some (source, more)) :
    ∃ after, cs = source ++ '\x7d' :: after ∧
      more = segments after ((p.after source).advance '\x7d') := by
  induction cs generalizing depth quoted p source more with
  | nil => cases h
  | cons c cs ih =>
    by_cases hclosing : (c = '\x7d' && !quoted && depth = 0) = true
    · rw [codeFrom, if_pos hclosing] at h
      cases h
      simp only [Bool.and_eq_true, decide_eq_true_eq] at hclosing
      obtain ⟨⟨rfl, -⟩, -⟩ := hclosing
      exact ⟨cs, rfl, rfl⟩
    · rw [codeFrom_cons hclosing] at h
      obtain ⟨⟨source, more⟩, hcode, heq⟩ := Option.map_eq_some_iff.1 h
      cases heq
      obtain ⟨after, rfl, rfl⟩ := ih hcode
      exact ⟨after, rfl, rfl⟩

def pastOpening (p : Position) : Position :=
  (p.advance '$').advance '\x7b'

/-- In the text of a template, given with its place, an expression is opened just before the second
text, which is given with its place too. Escapes are passed over, and so are earlier expressions. -/
inductive Opened : List Char → Position → List Char → Position → Prop
  | here (rest : List Char) (p : Position) :
      Opened ('$' :: '\x7b' :: rest) p rest (pastOpening p)
  | past {source after rest : List Char} {p q : Position} :
      codeFrom 0 false (pastOpening p) (source ++ '\x7d' :: after) =
        some (source, segments after (((pastOpening p).after source).advance '\x7d')) →
      Opened after (((pastOpening p).after source).advance '\x7d') rest q →
      Opened ('$' :: '\x7b' :: (source ++ '\x7d' :: after)) p rest q
  | escape {c : Char} {cs rest : List Char} {p q : Position} :
      Opened cs ((p.advance '\\').advance c) rest q → Opened ('\\' :: c :: cs) p rest q
  | char {c : Char} {cs rest : List Char} {p q : Position} :
      c ≠ '\\' → (c = '$' → cs.head? ≠ some '\x7b') → Opened cs (p.advance c) rest q →
      Opened (c :: cs) p rest q

theorem Opened.templateInside (h : Opened cs p rest q) (hcs : cs ∈ Pattern.templateInside) :
    rest ∈ Pattern.templateInside := by
  induction h with
  | here rest p =>
    have hcs : ['$', '\x7b'] ++ rest ∈ Pattern.templateInside := hcs
    exact Pattern.templateInside_of_append hcs fun hlast => absurd hlast (by decide)
  | @past source after rest p q hcode hopened ih =>
    have hcs : ['$', '\x7b'] ++ source ++ ['\x7d'] ++ after ∈ Pattern.templateInside := by
      simpa using hcs
    refine ih (Pattern.templateInside_of_append hcs fun hlast => ?_)
    rw [List.getLast?_concat] at hlast
    exact absurd hlast (by decide)
  | escape _ ih =>
    rcases Pattern.uncons_templateInside hcs with ⟨-, hslash, -⟩ | ⟨-, d, more, heq, -, hmore⟩
    · exact absurd rfl hslash
    · cases heq
      exact ih hmore
  | char hslash _ _ ih =>
    rcases Pattern.uncons_templateInside hcs with ⟨-, -, hmore⟩ | ⟨rfl, -⟩
    · exact ih hmore
    · exact absurd rfl hslash

theorem textFrom_opening (p : Position) (rest : List Char) :
    textFrom p ('$' :: '\x7b' :: rest) =
      match codeFrom 0 false (pastOpening p) rest with
      | some (source, more) => ([], (.code source, pastOpening p) :: more)
      | none => ([], [(.unterminated, p)]) := by
  rw [textFrom]
  rfl

theorem textFrom_char {c : Char} (hslash : c ≠ '\\') (hopening : c = '$' → cs.head? ≠ some '\x7b')
    (p : Position) :
    textFrom p (c :: cs) = (c :: (textFrom (p.advance c) cs).1, (textFrom (p.advance c) cs).2) := by
  rw [textFrom]
  · exact fun h => absurd h hslash
  · exact fun _ _ h => absurd h hslash
  · rintro rest hdollar rfl
    exact hopening hdollar rfl

theorem textFrom_escape (c : Char) (p : Position) :
    textFrom p ('\\' :: c :: cs) =
      (unescape c :: (textFrom ((p.advance '\\').advance c) cs).1,
        (textFrom ((p.advance '\\').advance c) cs).2) := by
  rw [textFrom]

theorem mem_segments_iff_textFrom {s : Segment × Position} (hs : ∀ content, s.1 ≠ .text content) :
    s ∈ segments cs p ↔ s ∈ (textFrom p cs).2 := by
  have htext (content : List Char) : s ∉ textSegment content p := by
    rw [textSegment]
    split
    · exact List.not_mem_nil
    · intro hmem
      exact hs content (congrArg Prod.fst (List.mem_singleton.1 hmem))
  simp [segments, htext]

theorem Opened.code_mem (h : Opened cs p rest q)
    (hcode : codeFrom 0 false q rest = some (source, more)) :
    (.code source, q) ∈ (textFrom p cs).2 := by
  induction h with
  | here rest p =>
    rw [textFrom_opening, hcode]
    exact List.mem_cons_self
  | past hearlier _ ih =>
    rw [textFrom_opening, hearlier]
    exact List.mem_cons_of_mem _ ((mem_segments_iff_textFrom (by simp)).2 (ih hcode))
  | escape _ ih =>
    rw [textFrom_escape]
    exact ih hcode
  | char hslash hopening _ ih =>
    rw [textFrom_char hslash hopening]
    exact ih hcode

def opening (p : Position) (rest : List Char) : Segment × Position :=
  match codeFrom 0 false (pastOpening p) rest with
  | some (source, _) => (.code source, pastOpening p)
  | none => (.unterminated, p)

theorem opening_eq_code :
    opening p rest = (.code source, q) ↔
      pastOpening p = q ∧ ∃ more, codeFrom 0 false q rest = some (source, more) := by
  rw [opening]
  constructor
  · intro h
    split at h
    · next found more hcode =>
      cases h
      exact ⟨rfl, more, hcode⟩
    · cases h
  · rintro ⟨rfl, more, hcode⟩
    rw [hcode]

theorem position_of_opening_eq_unterminated (h : opening p rest = (.unterminated, q)) : p = q := by
  rw [opening] at h
  split at h
  · cases h
  · cases h
    rfl

theorem exists_opened {s : Segment × Position} (hs : ∀ content, s.1 ≠ .text content)
    (h : s ∈ (textFrom p cs).2) :
    ∃ place rest, Opened cs p rest (pastOpening place) ∧ s = opening place rest := by
  induction hn : cs.length using Nat.strong_induction_on generalizing cs p with
  | _ n ih =>
    subst hn
    cases cs with
    | nil => cases h
    | cons c cs =>
      by_cases hslash : c = '\\'
      · subst hslash
        cases cs with
        | nil => cases h
        | cons d cs =>
          rw [textFrom_escape] at h
          have hshorter : cs.length < ('\\' :: d :: cs).length := by
            simp only [List.length_cons]
            omega
          obtain ⟨place, rest, hopened, heq⟩ := ih cs.length hshorter h rfl
          exact ⟨place, rest, hopened.escape, heq⟩
      by_cases hopening : c = '$' ∧ cs.head? = some '\x7b'
      · obtain ⟨rfl, hhead⟩ := hopening
        obtain ⟨rest, rfl⟩ := List.head?_eq_some_iff.1 hhead
        rw [textFrom_opening] at h
        cases hfirst : codeFrom 0 false (pastOpening p) rest with
        | none =>
          rw [hfirst] at h
          exact ⟨p, rest, .here rest p, by rw [List.mem_singleton.1 h, opening, hfirst]⟩
        | some found =>
          obtain ⟨earlier, more⟩ := found
          rw [hfirst] at h
          rcases List.mem_cons.1 h with heq | hmem
          · exact ⟨p, rest, .here rest p, by rw [heq, opening, hfirst]⟩
          · obtain ⟨after, rfl, rfl⟩ := codeFrom_eq_some hfirst
            have hshorter :
                after.length < ('$' :: '\x7b' :: (earlier ++ '\x7d' :: after)).length := by
              simp only [List.length_cons, List.length_append]
              omega
            have hmem := (mem_segments_iff_textFrom hs).1 hmem
            obtain ⟨place, rest, hopened, heq⟩ := ih after.length hshorter hmem rfl
            exact ⟨place, rest, .past hfirst hopened, heq⟩
      · have hopening : c = '$' → cs.head? ≠ some '\x7b' := fun hc hhead => hopening ⟨hc, hhead⟩
        rw [textFrom_char hslash hopening] at h
        obtain ⟨place, rest, hopened, heq⟩ := ih cs.length (by simp) h rfl
        exact ⟨place, rest, .char hslash hopening hopened, heq⟩

theorem code_mem_segments {raw : List Char} :
    (.code source, q) ∈ segments raw p ↔
      ∃ rest more, Opened raw p rest q ∧ codeFrom 0 false q rest = some (source, more) := by
  rw [mem_segments_iff_textFrom (by simp)]
  refine ⟨fun h => ?_, fun ⟨_, _, hopened, hcode⟩ => hopened.code_mem hcode⟩
  obtain ⟨place, rest, hopened, heq⟩ := exists_opened (by simp) h
  obtain ⟨rfl, more, hcode⟩ := opening_eq_code.1 heq.symm
  exact ⟨rest, more, hopened, hcode⟩

/-! ## The same brace -/

/-- Let an expression be opened in a template that has been cut out of a source, and let the text
from there on be cut into lexemes up to the first closing brace that outnumbers the opening ones. If
no comment before it has a brace or a single quote, then the expression ends at that brace: it is
all of the text before it. -/
theorem code_ends_at_brace_token {source : List Char} {start place : Position} {tokens : Tokens}
    {raw : String} (htokens : Token.tokenize source start = .ok tokens)
    (hraw : (.template raw, place) ∈ tokens)
    (hopened : Opened raw.toList (place.advance '"') rest q)
    (hcut : Cut rest pieces ('\x7d' :: after))
    (hcloses : ClosesNext 0 (pieces.filterMap Piece.token?))
    (hskipped : ∀ piece ∈ pieces, piece.lexeme = .skipped → ∀ c ∈ piece.text, isNeutral c) :
    rest = Piece.joined pieces ++ '\x7d' :: after ∧
      (∃ more, codeFrom 0 false q rest = some (Piece.joined pieces, more)) ∧
      (.code (Piece.joined pieces), q) ∈ segments raw.toList (place.advance '"') := by
  have hinside := hopened.templateInside ((Token.tokenize_eq_ok.1 htokens).wellFormed _ hraw)
  have hcode := codeFrom_of_cut hcut hinside hcloses hskipped q
  exact ⟨hcut.covers, ⟨_, hcode⟩, code_mem_segments.2 ⟨rest, _, hopened, hcode⟩⟩

/-- A record with a closing brace in a text of its own, and a comment, after an escape that keeps a
dollar sign from opening an expression. -/
theorem code_ends_at_brace_token_record :
    let code := ['\x7b', 'a', ':', '\'', '\x7d', '\'', '\x7d', '/', '*', 'é', '*', '/']
    let raw := ['\\', '$', '\x7b', '$', '\x7b'] ++ code ++ ['\x7d', '!']
    (.code code, ⟨1, 7⟩) ∈ segments raw ⟨1, 2⟩ := by
  intro code raw
  have htokens : Token.tokenize ('"' :: raw ++ ['"']) .start =
      .ok [(.template (String.ofList raw), .start)] := by rfl
  have hopened : Opened raw ⟨1, 2⟩ (code ++ ['\x7d', '!']) ⟨1, 7⟩ :=
    .escape (.char (by decide) (by decide) (.here _ _))
  let pieces : List Piece := [⟨['\x7b'], .token .leftBrace⟩,
    ⟨['a'], .token (.identifier "a")⟩, ⟨[':'], .token .colon⟩,
    ⟨['\'', '\x7d', '\''], .token (.plain "\x7d")⟩, ⟨['\x7d'], .token .rightBrace⟩,
    ⟨['/', '*', 'é', '*', '/'], .skipped⟩]
  have hcut : Cut (code ++ ['\x7d', '!']) pieces ['\x7d', '!'] := by
    repeat' refine .cons (fun h => by cases h) ?_
    exact .nil _
  have hskipped : ∀ piece ∈ pieces, piece.lexeme = .skipped → ∀ c ∈ piece.text, isNeutral c := by
    simp [pieces, isNeutral]
  have hcode := (code_ends_at_brace_token htokens List.mem_cons_self
    (by rw [String.toList_ofList]; exact hopened) hcut (by decide) hskipped).2.2
  rwa [String.toList_ofList] at hcode

/-- A closing brace in a comment ends the expression in the midst of the comment. -/
theorem code_ends_in_comment :
    ¬ ∀ (source : List Char) (start place : Position) (tokens : Tokens) (raw : String)
      (rest after : List Char) (q : Position) (pieces : List Piece),
      Token.tokenize source start = .ok tokens → (.template raw, place) ∈ tokens →
      Opened raw.toList (place.advance '"') rest q → Cut rest pieces ('\x7d' :: after) →
      ClosesNext 0 (pieces.filterMap Piece.token?) →
      ∃ more, codeFrom 0 false q rest = some (Piece.joined pieces, more) := by
  intro hall
  let raw := ['$', '\x7b', '/', '*', '\x7d', '*', '/', '1', '\x7d']
  have htokens : Token.tokenize ('"' :: raw ++ ['"']) .start =
      .ok [(.template (String.ofList raw), .start)] := by rfl
  have hopened : Opened (String.ofList raw).toList ⟨1, 2⟩ (raw.drop 2) ⟨1, 4⟩ := by
    rw [String.toList_ofList]
    exact .here _ _
  have hcut : Cut (raw.drop 2) [⟨['/', '*', '\x7d', '*', '/'], .skipped⟩,
      ⟨['1'], .token (.number "1")⟩] ['\x7d'] := by
    repeat' refine .cons (fun h => by cases h) ?_
    exact .nil _
  obtain ⟨more, hcode⟩ := hall _ _ _ _ _ _ _ _ _ htokens List.mem_cons_self hopened hcut (by decide)
  cases hcode

end Template
end Scriptlet
