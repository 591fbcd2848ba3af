import Scriptlet.Proofs.Syntax.Embedded
import Scriptlet.Proofs.Token.Coverage
/-!
# What syntax errors point at

A syntax error is reported at a place of the source, and what it is about stands there. Readers do
not know a place for the end of their tokens; whoever gave them the tokens fills it in, last of all
the reader of the program. Main statement: what stands at the place of an error, for each cause
(`Program.parse_error_points`). Tokens of expressions in templates are included, however deep the
templates nest (`Token.Found`).
-/
namespace Scriptlet

/-- A source that begins at `start` has the token `t` at `p`, among its own tokens or among those of
an expression in one of its templates. -/
inductive Token.Found : List Char → Position → Token → Position → Prop
  | own {source : List Char} {start : Position} {tokens : Tokens} {t : Token} {p : Position} :
      tokenize source start = .ok tokens → (t, p) ∈ tokens → Found source start t p
  | embedded {source code : List Char} {start q r : Position} {tokens : Tokens} {raw : String}
      {t : Token} {p : Position} :
      tokenize source start = .ok tokens → (.template raw, q) ∈ tokens →
      (.code code, r) ∈ Template.segments raw.toList (q.advance '"') → Found code r t p →
      Found source start t p

variable {source code : List Char} {start p q r : Position} {tokens : Tokens} {raw : String}
  {e : SyntaxError}

theorem Token.Found.stands {t : Token} (h : Found source start t p) :
    Stands source start p t.spelling := by
  induction h with
  | own htokens hmem => exact (tokenize_eq_ok.1 htokens).stands _ hmem
  | embedded htokens hmem hcode _ ih =>
    exact (Template.raw_stands htokens hmem).trans ((Template.code_stands hcode).left.trans ih)

/-- What an error is about stands at its place in a source. An error about the end of a text has no
place yet. -/
def SyntaxError.PointsInto (source : List Char) (start : Position) (e : SyntaxError) : Prop :=
  match e.cause with
  | .unexpectedToken _ t => Token.Found source start t e.position
  | .unexpectedEnd => True
  | .unrecognizedInput text => text ≠ "" ∧ Stands source start e.position text.toList
  | .unterminatedInterpolation => Stands source start e.position ['$', '\x7b']
  | .invalidTarget => ∃ t, Token.Found source start t e.position

namespace SyntaxError.PointsInto

theorem of_tokenize (h : Token.tokenize source start = .error e) : e.PointsInto source start := by
  have hscan : Token.Explains start [] source (Token.tokenize source start) :=
    Token.scan_explains start (Nat.le_refl source.length) []
  rw [h] at hscan
  obtain ⟨pieces, text, rest, -, hsource, hne, -, rfl⟩ := hscan
  refine ⟨fun hempty => hne (String.ofList_eq_empty_iff.1 hempty), Token.Piece.joined pieces, rest,
    ?_, ?_⟩
  · rw [String.toList_ofList, hsource]
  · rw [Position.rescan_eq_after, List.nil_append]

theorem of_blames (htokens : Token.tokenize source start = .ok tokens) (h : e.Blames tokens) :
    e.PointsInto source start := by
  cases h with
  | ended => trivial
  | token hmem => exact .own htokens hmem
  | target hmem => exact ⟨_, .own htokens hmem⟩

theorem endingAt (h : e.PointsInto source start) (p : Position) :
    (e.endingAt p).PointsInto source start := by
  rw [SyntaxError.endingAt]
  split
  · trivial
  · exact h

theorem embedded (htokens : Token.tokenize source start = .ok tokens)
    (hmem : (.template raw, q) ∈ tokens)
    (hcode : (.code code, r) ∈ Template.segments raw.toList (q.advance '"'))
    (h : e.PointsInto code r) : e.PointsInto source start := by
  have hstands := (Template.raw_stands htokens hmem).trans (Template.code_stands hcode).left
  obtain ⟨cause, p⟩ := e
  cases cause with
  | unexpectedToken => exact .embedded htokens hmem hcode h
  | unexpectedEnd => trivial
  | unrecognizedInput => exact ⟨h.1, hstands.trans h.2⟩
  | unterminatedInterpolation => exact hstands.trans h
  | invalidTarget => exact h.imp fun _ => .embedded htokens hmem hcode

/-- An error of a reader of tokens points into the source of the tokens if the errors of the
templates among them do. -/
theorem of_agree {f : TemplateReader} {β : Type} {good : β → Prop}
    (htokens : Token.tokenize source start = .ok tokens)
    (htemplate : ∀ raw q e, (.template raw, q) ∈ tokens → f raw q = .error e →
      e.PointsInto source start)
    (h : Agree f f tokens good (.error e) (.error e)) : e.PointsInto source start := by
  cases h with
  | refused hblames => exact of_blames htokens hblames
  | template hmem hraw _ => exact htemplate _ _ _ hmem hraw

end SyntaxError.PointsInto

namespace Template

open SyntaxError Scriptlet.Parser

/-- An error of a template among the tokens of a source points into the source, if the errors of the
expressions in it point into these. -/
theorem parse_pointsInto (htokens : Token.tokenize source start = .ok tokens)
    (hmem : (.template raw, q) ∈ tokens) (h : parse raw q = .error e)
    (hcode : ∀ code r, code.length < source.length → embedded parse code r = .error e →
      e.PointsInto code r) : e.PointsInto source start := by
  have hparts : (segments raw.toList (q.advance '"')).mapM (segmentNode parse) = .error e := by
    rw [parse_eq] at h
    cases hparts : (segments raw.toList (q.advance '"')).mapM (segmentNode parse) with
    | ok parts => rw [hparts] at h; cases h
    | error e' => rw [hparts] at h; cases h; rfl
  obtain ⟨⟨segment, r⟩, hsegment, hfails⟩ := exists_of_mapM_eq_error hparts
  cases segment with
  | text content => cases hfails
  | unterminated =>
    cases hfails
    exact (raw_stands htokens hmem).trans (unterminated_stands hsegment)
  | code code =>
    have hlength := segments_code_length hsegment
    rw [String.length_toList] at hlength
    have hshorter := Token.tokenize_template_length htokens hmem
    exact .embedded htokens hmem hsegment (hcode code r (by omega) hfails)

/-- The induction is on the length of the expression: those in its templates are shorter. -/
theorem embedded_pointsInto (h : embedded parse code r = .error e) : e.PointsInto code r := by
  induction hn : code.length using Nat.strong_induction_on generalizing code r e with
  | _ n ih =>
    obtain ⟨e, rfl, hread⟩ := embedded_eq_error parse_leaf h
    apply PointsInto.endingAt
    rcases hread with htokens | ⟨tokens, htokens, hagree⟩
    · exact .of_tokenize htokens
    exact .of_agree htokens (fun raw q e hmem hraw =>
      parse_pointsInto htokens hmem hraw fun code r hshorter hfails =>
        ih code.length (hn ▸ hshorter) hfails rfl) hagree

end Template

namespace Program

open SyntaxError

theorem ofTokens_pointsInto (htokens : Token.tokenize source start = .ok tokens)
    (h : ofTokens tokens = .error e) : e.PointsInto source start := by
  have hagree := ofTokensWith_agree (fun _ _ _ h => h) Template.parse_leaf tokens
  rw [ofTokensWith_parse, h] at hagree
  exact .of_agree htokens (fun raw q e hmem hraw =>
    Template.parse_pointsInto htokens hmem hraw fun _ _ _ => Template.embedded_pointsInto) hagree
/-- A source that is refused is refused at a place in it, or just past it, and never at no place.
Input that was not recognized stands there, and so does the token that was not expected, which is
one of the source or of an expression in a template, or the opening of an expression that is never
closed. An unexpected end is that of the source. -/
theorem parse_error_points {source : String} {e : SyntaxError} (h : parse source = .error e) :
    e.position ≠ .nowhere ∧ ∃ before after, source.toList = before ++ after ∧
      e.position = Position.start.after before ∧
      match e.cause with
      | .unexpectedToken _ t =>
        Token.Found source.toList .start t e.position ∧ t.spelling <+: after
      | .unexpectedEnd => after = []
      | .unrecognizedInput text => text ≠ "" ∧ text.toList <+: after
      | .unterminatedInterpolation => ['$', '\x7b'] <+: after
      | .invalidTarget =>
        ∃ t, Token.Found source.toList .start t e.position ∧ t.spelling <+: after := by
  obtain ⟨e, hread, rfl⟩ := mapError_eq_error.1 h
  have hpoints : e.PointsInto source.toList .start := by
    rcases except_bind_eq_error.1 hread with htokens | ⟨tokens, htokens, hfails⟩
    · exact .of_tokenize htokens
    · exact ofTokens_pointsInto htokens hfails
  refine (and_iff_right_of_imp ?_).2 ?_
  · rintro ⟨before, after, -, hplace, -⟩
    rw [hplace, Position.start_after]
    exact fun hnowhere => absurd (congrArg Position.line hnowhere) (by simp [Position.nowhere])
  obtain ⟨cause, p⟩ := e
  cases cause with
  | unexpectedToken _ t =>
    obtain ⟨before, after, hsource, hplace⟩ := hpoints.stands
    exact ⟨before, _, hsource, hplace, hpoints, List.prefix_append _ _⟩
  | unexpectedEnd => exact ⟨source.toList, [], (List.append_nil _).symm, rfl, rfl⟩
  | unrecognizedInput text =>
    obtain ⟨hne, before, after, hsource, hplace⟩ := hpoints
    exact ⟨before, _, hsource, hplace, hne, List.prefix_append _ _⟩
  | unterminatedInterpolation =>
    obtain ⟨before, after, hsource, hplace⟩ := hpoints
    exact ⟨before, _, hsource, hplace, List.prefix_append _ _⟩
  | invalidTarget =>
    obtain ⟨t, hfound⟩ := hpoints
    obtain ⟨before, after, hsource, hplace⟩ := hfound.stands
    exact ⟨before, _, hsource, hplace, t, hfound, List.prefix_append _ _⟩

/-- A token that is left over in a template on the second line, after a character of two bytes. -/
theorem parse_error_points_leftOver :
    let source := String.ofList ['1', '\n', '"', 'é', '$', '\x7b', '1', ' ', ')', '\x7d', '"']
    let e : SyntaxError := ⟨.unexpectedToken none .rightParen, ⟨2, 8⟩⟩
    parse source = .error e ∧ Token.Found source.toList .start .rightParen ⟨2, 8⟩ := by
  intro source e
  let raw := String.ofList ['é', '$', '\x7b', '1', ' ', ')', '\x7d']
  let tokens : Tokens := [(.number "1", ⟨1, 1⟩), (.newline, ⟨1, 2⟩), (.template raw, ⟨2, 1⟩)]
  have htokens : Token.tokenize source.toList .start = .ok tokens := by
    rw [String.toList_ofList]
    rfl
  have hraw : Template.parse raw ⟨2, 1⟩ = .error e := by
    rw [Template.parse, Template.parseWithin, String.toList_ofList]
    rfl
  have hdepends : DependsOn tokens raw ⟨2, 1⟩ := dependsOn_iff.2 fun e => rfl
  have hparse : parse source = .error e := parse_of_dependsOn htokens hraw hdepends
  obtain ⟨-, before, after, -, -, hfound, -⟩ := parse_error_points hparse
  exact ⟨hparse, hfound⟩

end Program
end Scriptlet
