import Scriptlet.Proofs.Syntax.Braces
import Scriptlet.Proofs.Syntax.Refusal
/-!
# Errors inside templates

A template that is refused is refused at a character between its quotes, however deep the templates
in its expressions nest. Main statement: a program that fails because one of its templates does
fails with the same cause, and at the same place unless the text of an expression has ended too
early: then it fails at the end of the whole source (`Program.parse_template_error`,
`Program.parse_moves_end`). A template that is read is what its parts are, and no bound on how deep
it nests is ever reached (`Template.parse_eq`).
-/
namespace Scriptlet

/-! ## Places in a text -/

theorem Token.tokenize_error_stands {source : List Char} {p : Position} {e : SyntaxError}
    (h : tokenize source p = .error e) : Stands source p e.position [] := by
  have hscan : Explains p [] source (tokenize source p) :=
    scan_explains p (Nat.le_refl source.length) []
  rw [h] at hscan
  obtain ⟨pieces, text, rest, -, hsource, -, -, rfl⟩ := hscan
  exact ⟨Piece.joined pieces, text ++ rest, hsource, Position.rescan_eq_after p _⟩

namespace Template

open Scriptlet.Parser

variable {cs rest source raw : List Char} {p q place : Position}

theorem pastOpening_inj (h : pastOpening p = pastOpening q) : p = q := by
  cases p
  cases q
  simpa [pastOpening, Position.advance] using h

theorem Opened.stands (h : Opened cs p rest (pastOpening place)) :
    Stands cs p place ('$' :: '\x7b' :: rest) := by
  generalize hq : pastOpening place = q at h
  induction h with
  | here rest p =>
    obtain rfl := pastOpening_inj hq
    exact ⟨[], [], by simp, rfl⟩
  | past _ _ ih => exact (ih hq).cons.append.cons.cons
  | escape _ ih => exact (ih hq).cons.cons
  | char _ _ _ ih => exact (ih hq).cons

theorem raw_stands {tokens : Tokens} {raw : String}
    (htokens : Token.tokenize source p = .ok tokens) (hmem : (.template raw, q) ∈ tokens) :
    Stands source p (q.advance '"') raw.toList := by
  have hquoted : Stands source p q ('"' :: raw.toList ++ ['"']) :=
    (Token.tokenize_eq_ok.1 htokens).stands _ hmem
  exact hquoted.tail.left

theorem code_stands (h : (.code source, q) ∈ segments raw p) :
    Stands raw p q (source ++ ['\x7d']) := by
  obtain ⟨place, rest, hopened, heq⟩ :=
    exists_opened (by simp) ((mem_segments_iff_textFrom (by simp)).1 h)
  obtain ⟨rfl, more, hcode⟩ := opening_eq_code.1 heq.symm
  obtain ⟨after, rfl, -⟩ := codeFrom_eq_some hcode
  have hstands := hopened.stands.tail.tail
  rw [List.append_cons] at hstands
  exact hstands.left

theorem unterminated_stands (h : (.unterminated, q) ∈ segments raw p) :
    Stands raw p q ['$', '\x7b'] := by
  obtain ⟨place, rest, hopened, heq⟩ :=
    exists_opened (by simp) ((mem_segments_iff_textFrom (by simp)).1 h)
  obtain rfl := position_of_opening_eq_unterminated heq.symm
  have hstands : Stands raw p place (['$', '\x7b'] ++ rest) := hopened.stands
  exact hstands.left

/-! ## Refused templates -/

variable {k : Nat} {e : SyntaxError}

theorem endingAt_stands (h : e.cause = .unexpectedEnd ∨ Stands source p e.position []) :
    Stands source p (e.endingAt (p.after source)).position [] := by
  rw [SyntaxError.endingAt]
  split
  · exact ⟨source, [], by simp, rfl⟩
  · next hcause => exact h.resolve_left hcause

/-- An error about tokens of a text stands where one of them begins, or is about their end. -/
theorem blames_stands {tokens : Tokens} (htokens : Token.tokenize source p = .ok tokens)
    (h : e.Blames tokens) : e.cause = .unexpectedEnd ∨ Stands source p e.position [] := by
  have hstands := (Token.tokenize_eq_ok.1 htokens).stands
  cases h with
  | ended => exact .inl rfl
  | token ht | target ht => exact .inr (hstands _ ht).here

theorem parseWithin_leaf (k : Nat) ⦃raw : String⦄ ⦃p : Position⦄ ⦃n : Node⦄
    (h : parseWithin k raw p = .ok n) : n.position = p ∧ n.kind.suffixes = [] :=
  parseWithin_sound Phrase.closed_fromTokens k h

theorem parse_leaf ⦃raw : String⦄ ⦃p : Position⦄ ⦃n : Node⦄ (h : parse raw p = .ok n) :
    n.position = p ∧ n.kind.suffixes = [] :=
  parseWithin_leaf _ h

theorem embedded_eq_error {f : TemplateReader}
    (hleaf : ∀ ⦃raw p n⦄, f raw p = .ok n → n.position = p ∧ n.kind.suffixes = [])
    (h : embedded f source p = .error e) :
    ∃ e', e = e'.endingAt (p.after source) ∧ (Token.tokenize source p = .error e' ∨
      ∃ tokens, Token.tokenize source p = .ok tokens ∧
        Agree f f tokens (fun _ : Node => True) (.error e') (.error e')) := by
  obtain ⟨e', hread, rfl⟩ := mapError_eq_error.1 h
  refine ⟨e', rfl, ?_⟩
  rcases except_bind_eq_error.1 hread with htokens | ⟨tokens, htokens, hrun⟩
  · exact .inl htokens
  have hdrop : dropNewlines tokens <:+ tokens := dropNewlines_suffix List.suffix_rfl
  have hexpr := Grammar.expression_alike (fun _ _ _ h => h) hleaf (tokens.length + 1) hdrop
  refine .inr ⟨tokens, htokens, ?_⟩
  rw [← hrun]
  exact hexpr.bind fun r _ hrest =>
    (Tokens.checkEnd_agree (dropNewlines_suffix hrest)).bind fun _ _ _ => .value trivial

/-- An expression in a template is refused at a place in its text, or just past it, if templates in
the text are refused between their quotes. -/
theorem embedded_error (htemplate : ∀ ⦃raw q e⦄, raw.length < source.length →
      parseWithin k raw q = .error e → ∃ c, Stands raw.toList (q.advance '"') e.position [c])
    (h : embedded (parseWithin k) source p = .error e) : Stands source p e.position [] := by
  obtain ⟨e, rfl, hread⟩ := embedded_eq_error (parseWithin_leaf k) h
  apply endingAt_stands
  rcases hread with htokens | ⟨tokens, htokens, hagree⟩
  · exact .inr (Token.tokenize_error_stands htokens)
  cases hagree with
  | refused hblames => exact blames_stands htokens hblames
  | @template raw q _ _ hmem hraw _ =>
    obtain ⟨c, hc⟩ := htemplate (Token.tokenize_template_length htokens hmem) hraw
    exact .inr ((raw_stands htokens hmem).trans hc).here

/-- A template is refused at a character between its quotes. The induction is on the depth that is
allowed: the templates in an expression are shorter than the template around it. -/
theorem parseWithin_error {raw : String} (hk : raw.length < k)
    (h : parseWithin k raw p = .error e) :
    ∃ c, Stands raw.toList (p.advance '"') e.position [c] := by
  induction k generalizing raw p e with
  | zero => omega
  | succ k ih =>
    rw [parseWithin] at h
    rcases except_bind_eq_error.1 h with hparts | ⟨_, -, h⟩
    · obtain ⟨⟨segment, q⟩, hmem, hsegment⟩ := exists_of_mapM_eq_error hparts
      cases segment with
      | text content => cases hsegment
      | code source =>
        have hlength := segments_code_length hmem
        rw [String.length_toList] at hlength
        have hplace := embedded_error (fun raw q e hraw => ih (by omega)) hsegment
        obtain ⟨c, hc⟩ := hplace.exists_char '\x7d'
        exact ⟨c, (code_stands hmem).trans hc⟩
      | unterminated =>
        cases hsegment
        have hopening : Stands raw.toList (p.advance '"') q (['$'] ++ ['\x7b']) :=
          unterminated_stands hmem
        exact ⟨'$', hopening.left⟩
    · cases h

/-! ## Readers of nested templates -/

section Depth

variable {f g : TemplateReader} (hfg : ∀ ⦃raw p n⦄, f raw p = .ok n → g raw p = .ok n)
  (hleaf : ∀ ⦃raw p n⦄, f raw p = .ok n → n.position = p ∧ n.kind.suffixes = [])

include hfg hleaf

theorem embedded_congr (hsame : ∀ raw q, raw.length < source.length → f raw q = g raw q) :
    embedded f source p = embedded g source p := by
  simp only [embedded, bind, Except.bind]
  cases htokens : Token.tokenize source p with
  | error e => rfl
  | ok tokens =>
    have hdrop : dropNewlines tokens <:+ tokens := dropNewlines_suffix List.suffix_rfl
    have hagree := Grammar.expression_alike hfg hleaf (tokens.length + 1) hdrop
    have hexpr := hagree.eq fun raw q hmem =>
      hsame raw q (Token.tokenize_template_length htokens hmem)
    simp only [hexpr]

theorem segments_congr (hsame : ∀ raw q, raw.length < cs.length → f raw q = g raw q) :
    (segments cs p).mapM (segmentNode f) = (segments cs p).mapM (segmentNode g) := by
  apply mapM_congr
  rintro ⟨segment, q⟩ hmem
  cases segment with
  | text content => rfl
  | unterminated => rfl
  | code source =>
    have hlength := segments_code_length hmem
    exact embedded_congr hfg hleaf fun raw q hraw => hsame raw q (by omega)

end Depth

theorem parse_of_parseWithin ⦃raw : String⦄ ⦃p : Position⦄ ⦃n : Node⦄
    (h : parseWithin k raw p = .ok n) : parse raw p = .ok n :=
  parse_eq_ok.2 (parseWithin_sound .derivations k h)

/-- The depth that is allowed is never reached. The induction is on the length of the template: the
templates in an expression of it are shorter. -/
theorem parseWithin_eq_parse {raw : String} (h : raw.length < k) (p : Position) :
    parseWithin k raw p = parse raw p := by
  induction hn : raw.length using Nat.strong_induction_on generalizing raw k p with
  | _ n ih =>
    obtain ⟨k, rfl⟩ := Nat.exists_eq_add_of_lt h
    have hparts (j : Nat) (hj : raw.length ≤ j) :
        (segments raw.toList (p.advance '"')).mapM (segmentNode (parseWithin j)) =
          (segments raw.toList (p.advance '"')).mapM (segmentNode parse) :=
      segments_congr parse_of_parseWithin (parseWithin_leaf j) fun inner q hinner => by
        rw [String.length_toList] at hinner
        exact ih inner.length (by omega) (by omega) q rfl
    rw [parse, parseWithin, parseWithin, hparts _ (by omega), hparts _ (Nat.le_refl _)]

theorem parse_eq (raw : String) (p : Position) :
    parse raw p = ((segments raw.toList (p.advance '"')).mapM (segmentNode parse)).map
      (⟨.template ·, p⟩) := by
  have hparts : (segments raw.toList (p.advance '"')).mapM (segmentNode (parseWithin raw.length)) =
      (segments raw.toList (p.advance '"')).mapM (segmentNode parse) :=
    segments_congr parse_of_parseWithin (parseWithin_leaf _) fun inner q hinner => by
      rw [String.length_toList] at hinner
      exact parseWithin_eq_parse hinner q
  rw [parse, parseWithin, hparts]
  cases (segments raw.toList (p.advance '"')).mapM (segmentNode parse) <;> rfl

/-! ## One reader for one template -/

/-- A reader of templates that gives `result` for one template, and otherwise reads as always. -/
def readAs (raw : String) (p : Position) (result : Except SyntaxError Node) : TemplateReader :=
  fun raw' p' => if raw' = raw ∧ p' = p then result else parse raw' p'

theorem readAs_parse (raw : String) (p : Position) : readAs raw p (parse raw p) = parse := by
  funext raw' p'
  rw [readAs]
  split_ifs with h
  · rw [h.1, h.2]
  · rfl

/-- What a template is read as if one of them is refused, it is read as with any result for that
one. -/
theorem readAs_error_ok {raw raw' : String} {n : Node}
    (h : readAs raw p (.error e) raw' q = .ok n) (result : Except SyntaxError Node) :
    readAs raw p result raw' q = .ok n := by
  rw [readAs] at h ⊢
  split_ifs at h ⊢
  exact h

theorem readAs_error_leaf (raw : String) (p : Position) (e : SyntaxError) ⦃raw' : String⦄
    ⦃p' : Position⦄ ⦃n : Node⦄ (h : readAs raw p (.error e) raw' p' = .ok n) :
    n.position = p' ∧ n.kind.suffixes = [] := by
  have hparse := readAs_error_ok h (parse raw p)
  rw [readAs_parse] at hparse
  exact parseWithin_leaf _ hparse

end Template

/-! ## Refused programs -/

namespace Program

/-- The tree of a program's tokens, with another reader of templates. -/
def ofTokensWith (template : TemplateReader) (tokens : Tokens) : Except SyntaxError Node := do
  let expr := Grammar.expression template (tokens.length + 1)
  let (program, rest) ← Grammar.statements expr .start tokens
  Tokens.checkEnd rest
  return program

theorem ofTokensWith_parse (tokens : Tokens) :
    ofTokensWith Template.parse tokens = ofTokens tokens := rfl

/-- What is made of the tokens depends on what is read for one of the templates. -/
def DependsOn (tokens : Tokens) (raw : String) (p : Position) : Prop :=
  ∃ result, ofTokensWith (Template.readAs raw p result) tokens ≠ ofTokens tokens

theorem ofTokensWith_agree {f g : TemplateReader}
    (hfg : ∀ ⦃raw p n⦄, f raw p = .ok n → g raw p = .ok n)
    (hleaf : ∀ ⦃raw p n⦄, f raw p = .ok n → n.position = p ∧ n.kind.suffixes = [])
    (tokens : Tokens) :
    Agree f g tokens (fun _ => True) (ofTokensWith f tokens) (ofTokensWith g tokens) := by
  have hexpr := Grammar.expression_alike hfg hleaf (tokens.length + 1)
  exact (Grammar.statements_alike hexpr .start List.suffix_rfl).bind fun r _ hrest =>
    (Tokens.checkEnd_agree hrest).bind fun _ _ _ => .value trivial

/-- An error of a template is passed on, or it does not matter what is read for the template. -/
theorem ofTokensWith_readAs_error (tokens : Tokens) (raw : String) (q : Position) (e : SyntaxError)
    (result : Except SyntaxError Node) :
    ofTokensWith (Template.readAs raw q (.error e)) tokens = .error e ∨
      ofTokensWith (Template.readAs raw q (.error e)) tokens =
        ofTokensWith (Template.readAs raw q result) tokens := by
  have hagree := ofTokensWith_agree (fun _ _ _ h => Template.readAs_error_ok h result)
    (Template.readAs_error_leaf raw q e) tokens
  generalize ofTokensWith (Template.readAs raw q (.error e)) tokens = r,
    ofTokensWith (Template.readAs raw q result) tokens = r' at hagree ⊢
  cases hagree with
  | value _ => exact .inr rfl
  | refused _ => exact .inr rfl
  | @template raw' q' e' _ _ hraw hsame =>
    by_cases heq : raw' = raw ∧ q' = q
    · rw [Template.readAs, if_pos heq] at hraw
      exact .inl hraw.symm
    · rw [Template.readAs, if_neg heq] at hraw hsame
      exact .inr (hsame hraw).symm

/-- What is made of the tokens depends on a template exactly if every error of it is passed on. -/
theorem dependsOn_iff {tokens : Tokens} {raw : String} {q : Position} :
    DependsOn tokens raw q ↔
      ∀ e, ofTokensWith (Template.readAs raw q (.error e)) tokens = .error e := by
  constructor
  · rintro ⟨result, hne⟩ e
    rcases ofTokensWith_readAs_error tokens raw q e result with hpassed | hsame
    · exact hpassed
    rcases ofTokensWith_readAs_error tokens raw q e (Template.parse raw q) with hpassed | hsame'
    · exact hpassed
    rw [Template.readAs_parse, ofTokensWith_parse] at hsame'
    exact absurd (hsame.symm.trans hsame') hne
  · intro hpassed
    by_contra hnot
    have hconstant (e : SyntaxError) : ofTokens tokens = .error e := by
      by_contra hne
      exact hnot ⟨.error e, fun h => hne (h.symm.trans (hpassed e))⟩
    cases (hconstant .atEnd).symm.trans (hconstant ⟨.invalidTarget, .nowhere⟩)

/-- A template that is refused, and that the program depends on, refuses the program. -/
theorem parse_of_dependsOn {source raw : String} {tokens : Tokens} {q : Position}
    {e : SyntaxError} (htokens : Token.tokenize source.toList .start = .ok tokens)
    (hraw : Template.parse raw q = .error e) (hdepends : DependsOn tokens raw q) :
    parse source = .error (e.endingAt (Position.start.after source.toList)) := by
  have hfails : ofTokens tokens = .error e := by
    rw [← ofTokensWith_parse, ← Template.readAs_parse raw q, hraw]
    exact dependsOn_iff.1 hdepends e
  rw [parse, htokens]
  exact mapError_eq_error.2 ⟨e, hfails, rfl⟩

/-- Let the program that is made of a source's tokens depend on one of its templates, and let that
template be refused. Then the program is refused for the same cause. It is refused at the same
place, except that a text that ends too early is reported at the end of the source. The place that
the template is refused at is that of a character between its quotes. -/
theorem parse_template_error {source raw : String} {tokens : Tokens} {q : Position}
    {e : SyntaxError} (htokens : Token.tokenize source.toList .start = .ok tokens)
    (hmem : (.template raw, q) ∈ tokens) (hraw : Template.parse raw q = .error e)
    (hdepends : DependsOn tokens raw q) :
    (∃ e', parse source = .error e' ∧ e'.cause = e.cause ∧
      (e.cause ≠ .unexpectedEnd → e'.position = e.position) ∧
      (e.cause = .unexpectedEnd → e'.position = Position.start.after source.toList)) ∧
    Stands source.toList .start q ('"' :: raw.toList ++ ['"']) ∧
    ∃ c, Stands raw.toList (q.advance '"') e.position [c] := by
  refine ⟨⟨_, parse_of_dependsOn htokens hraw hdepends, ?_⟩,
    (Token.tokenize_eq_ok.1 htokens).stands _ hmem,
    Template.parseWithin_error (Nat.lt_succ_self _) hraw⟩
  rw [SyntaxError.endingAt]
  split
  · next hcause => exact ⟨hcause.symm, fun h => absurd hcause h, fun _ => rfl⟩
  · next hcause => exact ⟨rfl, fun _ => rfl, fun h => absurd h hcause⟩

/-- A closing parenthesis in place of an expression, on the second line and after a character of two
bytes. -/
theorem parse_template_error_secondLine :
    ∃ e, parse (String.ofList ['1', '\n', '"', 'é', '$', '\x7b', ')', '\x7d', '"']) = .error e ∧
      e.position = ⟨2, 6⟩ := by
  let raw := String.ofList ['é', '$', '\x7b', ')', '\x7d']
  let tokens : Tokens := [(.number "1", ⟨1, 1⟩), (.newline, ⟨1, 2⟩), (.template raw, ⟨2, 1⟩)]
  have htokens : Token.tokenize ['1', '\n', '"', 'é', '$', '\x7b', ')', '\x7d', '"'] .start =
      .ok tokens := by rfl
  have hraw : Template.parse raw ⟨2, 1⟩ =
      .error ⟨.unexpectedToken (some .expression) .rightParen, ⟨2, 6⟩⟩ := by
    rw [Template.parse, Template.parseWithin, String.toList_ofList]
    rfl
  have hdepends : DependsOn tokens raw ⟨2, 1⟩ := dependsOn_iff.2 fun e => rfl
  obtain ⟨⟨e, hparse, -, hplace, -⟩, -⟩ := parse_template_error
    (by rw [String.toList_ofList]; exact htokens) (by simp [tokens]) hraw hdepends
  exact ⟨e, hparse, hplace (fun h => by cases h)⟩

/-- An expression that ends too early is reported past the quote that closes its template. -/
theorem parse_moves_end :
    ¬ ∀ (source raw : String) (tokens : Tokens) (q : Position) (e : SyntaxError),
      Token.tokenize source.toList .start = .ok tokens → (.template raw, q) ∈ tokens →
      Template.parse raw q = .error e → DependsOn tokens raw q →
      ∃ e', parse source = .error e' ∧ e'.cause = e.cause ∧ e'.position = e.position := by
  intro hall
  let raw := String.ofList ['$', '\x7b', '1', ' ', '+', '\x7d']
  let source := String.ofList ['"', '$', '\x7b', '1', ' ', '+', '\x7d', '"']
  have htokens : Token.tokenize source.toList .start = .ok [(.template raw, .start)] := by
    rw [String.toList_ofList]
    rfl
  have hraw : Template.parse raw .start = .error ⟨.unexpectedEnd, ⟨1, 7⟩⟩ := by
    rw [Template.parse, Template.parseWithin, String.toList_ofList]
    rfl
  have hdepends : DependsOn [(.template raw, .start)] raw .start :=
    dependsOn_iff.2 fun e => rfl
  have hparse : parse source = .error ⟨.unexpectedEnd, ⟨1, 9⟩⟩ := by
    rw [parse_of_dependsOn htokens hraw hdepends, String.toList_ofList]
    rfl
  obtain ⟨e, he, -, hplace⟩ :=
    hall source raw _ .start _ htokens List.mem_cons_self hraw hdepends
  rw [hparse] at he
  cases he
  exact absurd hplace (by decide)

end Program

end Scriptlet
