import Scriptlet.Proofs.Eval.Steps
import Scriptlet.Proofs.Syntax.Embedded
import Scriptlet.Proofs.Syntax.Literal
/-!
# Templates that are written

Every text can be written into a template, with backslashes in front of the characters that mean
something there. Main statement: a template made of such texts, with expressions between them, is
read as these texts and what its expressions are read as, each at its place
(`Template.parse_written`). The brace that closes an expression is found if the source of the
expression is balanced (`Template.codeFrom_balanced`).
-/
namespace Scriptlet

namespace Template

variable {source after : List Char} {depth : Nat}

/-! ## Balanced sources -/

/-- The characters outside of single quotes. `quoted` is set if the text begins between two. -/
def unquoted (quoted : Bool) : List Char → List Char
  | [] => []
  | c :: cs =>
    if c = '\'' then unquoted (!quoted) cs
    else if quoted then unquoted quoted cs
    else c :: unquoted quoted cs

/-- With the given number of braces open, a text closes all braces, and nowhere more than are
open. -/
structure Closes (depth : Nat) (text : List Char) : Prop where
  front : ∀ front, front <+: text → front.count '\x7d' ≤ depth + front.count '\x7b'
  whole : text.count '\x7d' = depth + text.count '\x7b'

/-- Every single quote has its partner, and the braces outside of single quotes are balanced: none
closes what has not been opened before. -/
structure Balanced (source : List Char) : Prop where
  quotes : 2 ∣ source.count '\''
  braces : Closes 0 (unquoted false source)

instance (depth : Nat) (text : List Char) : Decidable (Closes depth text) :=
  decidable_of_iff ((∀ front ∈ text.inits, front.count '\x7d' ≤ depth + front.count '\x7b') ∧
      text.count '\x7d' = depth + text.count '\x7b')
    ⟨fun h => ⟨fun front hfront => h.1 front ((List.mem_inits _ _).2 hfront), h.2⟩,
      fun h => ⟨fun front hfront => h.front front ((List.mem_inits _ _).1 hfront), h.whole⟩⟩

instance (source : List Char) : Decidable (Balanced source) :=
  decidable_of_iff (2 ∣ source.count '\'' ∧ Closes 0 (unquoted false source))
    ⟨fun h => ⟨h.1, h.2⟩, fun h => ⟨h.quotes, h.braces⟩⟩

namespace Closes

variable {c : Char} {text : List Char}

theorem leftBrace (h : Closes depth ('\x7b' :: text)) : Closes (depth + 1) text where
  front front hfront := by
    have := h.front ('\x7b' :: front) ((List.prefix_cons_inj _).2 hfront)
    simp at this
    omega
  whole := by
    have := h.whole
    simp at this
    omega

theorem rightBrace (h : Closes depth ('\x7d' :: text)) : 0 < depth ∧ Closes (depth - 1) text := by
  have hopen := h.front ['\x7d'] (List.prefix_append ['\x7d'] text)
  simp at hopen
  refine ⟨by omega, fun front hfront => ?_, ?_⟩
  · have := h.front ('\x7d' :: front) ((List.prefix_cons_inj _).2 hfront)
    simp at this
    omega
  · have := h.whole
    simp at this
    omega

theorem other (h : Closes depth (c :: text)) (hleft : c ≠ '\x7b') (hright : c ≠ '\x7d') :
    Closes depth text where
  front front hfront := by
    have := h.front (c :: front) ((List.prefix_cons_inj c).2 hfront)
    simpa [List.count_cons, hleft, hright] using this
  whole := by
    have := h.whole
    simpa [List.count_cons, hleft, hright] using this

end Closes

/-- The brace after a balanced text closes the expression. The induction is on the text; its rest
may begin between two single quotes, and with braces open. -/
theorem codeFrom_closes {quoted : Bool} (hquotes : 2 ∣ quoted.toNat + source.count '\'')
    (hbraces : Closes depth (unquoted quoted source)) (p : Position) :
    codeFrom depth quoted p (source ++ '\x7d' :: after) =
      some (source, segments after ((p.after source).advance '\x7d')) := by
  induction source generalizing depth quoted p with
  | nil =>
    have hdepth : 0 = depth := by simpa [unquoted] using hbraces.whole
    cases quoted with
    | true => cases Nat.dvd_one.1 hquotes
    | false => simp [codeFrom, segments, ← hdepth]
  | cons c source ih =>
    rw [List.cons_append, Position.after_cons]
    by_cases hquote : c = '\''
    · subst hquote
      have hquotes : 2 ∣ (!quoted).toNat + source.count '\'' := by
        rw [List.count_cons_self] at hquotes
        cases quoted <;> simp at hquotes ⊢ <;> omega
      have hbraces : Closes depth (unquoted (!quoted) source) := by
        rwa [unquoted, if_pos rfl] at hbraces
      rw [codeFrom_quote, ih hquotes hbraces]
      rfl
    rw [List.count_cons_of_ne hquote] at hquotes
    rw [unquoted, if_neg hquote] at hbraces
    cases quoted with
    | true =>
      rw [codeFrom_quoted_cons hquote, ih hquotes hbraces]
      rfl
    | false =>
      rw [if_neg Bool.false_ne_true] at hbraces
      by_cases hleft : c = '\x7b'
      · subst hleft
        rw [codeFrom_leftBrace, ih hquotes hbraces.leftBrace]
        rfl
      by_cases hright : c = '\x7d'
      · subst hright
        obtain ⟨hdepth, hbraces⟩ := hbraces.rightBrace
        rw [codeFrom_rightBrace hdepth, ih hquotes hbraces]
        rfl
      · have hneutral : isNeutral c := by simp [isNeutral, hleft, hright, hquote]
        rw [codeFrom_neutral_cons hneutral, ih hquotes (hbraces.other hleft hright)]
        rfl

theorem codeFrom_balanced (h : Balanced source) (p : Position) (after : List Char) :
    codeFrom 0 false p (source ++ '\x7d' :: after) =
      some (source, segments after ((p.after source).advance '\x7d')) :=
  codeFrom_closes (by simpa using h.quotes) h.braces p

/-! ## Encoded texts -/

def escaped : Char → List Char
  | '\\' => ['\\', '\\']
  | '"' => ['\\', '"']
  | '$' => ['\\', '$']
  | '\n' => ['\\', 'n']
  | '\t' => ['\\', 't']
  | c => [c]

def encode (text : List Char) : List Char :=
  text.flatMap escaped

theorem textFrom_escaped (c : Char) (p : Position) (rest : List Char) :
    textFrom p (escaped c ++ rest) =
      (c :: (textFrom (p.after (escaped c)) rest).1, (textFrom (p.after (escaped c)) rest).2) := by
  unfold escaped
  split
  any_goals exact textFrom_escape _ _
  next hslash _ hdollar _ _ => exact textFrom_char hslash (fun h => absurd h hdollar) p

theorem textFrom_encode (text : List Char) (p : Position) (rest : List Char) :
    textFrom p (encode text ++ rest) =
      (text ++ (textFrom (p.after (encode text)) rest).1,
        (textFrom (p.after (encode text)) rest).2) := by
  induction text generalizing p with
  | nil => rfl
  | cons c text ih =>
    rw [encode, List.flatMap_cons, List.append_assoc, textFrom_escaped, Position.after_append]
    exact congrArg (fun found => (c :: found.1, found.2)) (ih _)

theorem encode_mem_templateInside (text : List Char) : encode text ∈ Pattern.templateInside := by
  induction text with
  | nil => exact Language.nil_mem_kstar _
  | cons c text ih =>
    rw [encode, List.flatMap_cons]
    unfold escaped
    split
    any_goals exact Pattern.escape_mem_templateInside (by decide) ih
    next hslash hquote _ _ _ => exact Pattern.cons_mem_templateInside hquote hslash ih

/-! ## Templates that are read back -/

/-- The raw text of a template: a text, then expressions with a text after each. -/
def written (text : String) : List (List Char × String) → List Char
  | [] => encode text.toList
  | (source, next) :: more =>
    encode text.toList ++ '$' :: '\x7b' :: (source ++ '\x7d' :: written next more)

/-- The node of a text that begins at `p`. There is none if the text is empty. -/
def textNode (text : String) (p : Position) : List Node :=
  if text = "" then [] else [⟨.text text, p⟩]

/-- What a text that begins at `p`, and expressions with a text after each, have to be read as. -/
def parts (p : Position) (text : String) :
    List (List Char × String) → Except SyntaxError (List Node)
  | [] => return textNode text p
  | (source, next) :: more => do
    let start := pastOpening (p.after (encode text.toList))
    let node ← embedded parse source start
    let others ← parts ((start.after source).advance '\x7d') next more
    return textNode text p ++ node :: others

theorem mapM_textSegment (text : String) (p : Position) :
    (textSegment text.toList p).mapM (segmentNode parse) = pure (textNode text p) := by
  rw [textSegment, textNode]
  by_cases hempty : text = ""
  · subst hempty
    rfl
  · have hne : text.toList ≠ [] := by simpa using hempty
    rw [if_neg (by simpa using hne), if_neg hempty, List.mapM_cons]
    simp only [segmentNode, String.ofList_toList]
    rfl

theorem segments_encode (text : List Char) (p : Position) :
    segments (encode text) p = textSegment text p := by
  have htext := textFrom_encode text p []
  rw [List.append_nil] at htext
  simp [segments, htext, textFrom]

theorem segments_encode_opening (h : Balanced source) (text next : List Char) (p : Position) :
    let start := pastOpening (p.after (encode text))
    segments (encode text ++ '$' :: '\x7b' :: (source ++ '\x7d' :: next)) p =
      textSegment text p ++
        (.code source, start) :: segments next ((start.after source).advance '\x7d') := by
  simp [segments, textFrom_encode, textFrom_opening, codeFrom_balanced h]

/-- The induction is on the expressions. Each is closed by the brace that was written for it, and
what stands after that brace is a template like the whole. -/
theorem mapM_segments (text : String) (pieces : List (List Char × String))
    (h : ∀ piece ∈ pieces, Balanced piece.1) (p : Position) :
    (segments (written text pieces) p).mapM (segmentNode parse) = parts p text pieces := by
  induction pieces generalizing text p with
  | nil => rw [written, segments_encode, mapM_textSegment, parts]
  | cons piece pieces ih =>
    obtain ⟨source, next⟩ := piece
    rw [List.forall_mem_cons] at h
    rw [written, segments_encode_opening h.1, List.mapM_append, mapM_textSegment, List.mapM_cons,
      ih _ h.2, parts]
    simp [segmentNode]

/-- What is read for an encoded text has this text as its value. -/
theorem template_ends (settings : Settings) (text : String) (p q : Position) (e : FrameRef)
    (s : State) :
    Eval.Ends (fun steps => Eval.evaluate settings steps ⟨.template (textNode text q), p⟩ e) s
      (.string text) s := by
  refine .of_step ?_
  by_cases hempty : text = ""
  · subst hempty
    exact .of_eq fun _ => rfl
  · have hpart : Eval.Ends (fun steps => Eval.evaluate settings steps ⟨.text text, q⟩ e) s
        (.string text) s := .of_step (.of_eq fun _ => rfl)
    rw [textNode, if_neg hempty]
    refine .bind (a := text) (.bind hpart (.of_eq fun _ => ?_)) (.of_eq fun _ => rfl)
    change Outcome.value (text ++ "") s = .value text s
    rw [String.append_empty]

theorem parse_quoted (text : String) :
    Program.parse (String.ofList ('"' :: encode text.toList ++ ['"'])) =
      .ok ⟨.statements [⟨.template (textNode text (Position.start.advance '"')), .start⟩],
        .start⟩ := by
  have hparse : parse (String.ofList (encode text.toList)) .start =
      .ok ⟨.template (textNode text (Position.start.advance '"')), .start⟩ := by
    rw [parse_eq, String.toList_ofList, segments_encode, mapM_textSegment]
    rfl
  have hwell : (Token.template (String.ofList (encode text.toList))).WellFormed := by
    rw [Token.WellFormed, String.toList_ofList]
    exact encode_mem_templateInside _
  have hscan := Token.Scanned.spelling_append (p := .start) hwell (by simp) .done
  rw [Token.spelling, List.append_nil, String.toList_ofList] at hscan
  apply Program.parse_expression
  · rw [String.toList_ofList]
    exact hscan
  · exact .of_primary (.template (parse_eq_ok.1 hparse))

/-- Let a template be made of encoded texts and of balanced expressions between them. Then its parts
are the nodes of those texts that are not empty and of those expressions, in their order and each at
its place; or it is refused as the first of its expressions that is refused. An encoded text is the
raw text of a template whose value is this text, and between double quotes it is a program with this
value. -/
theorem parse_written (text : String) (pieces : List (List Char × String))
    (h : ∀ piece ∈ pieces, Balanced piece.1) (p : Position) :
    parse (String.ofList (written text pieces)) p =
        (parts (p.advance '"') text pieces).map (⟨.template ·, p⟩) ∧
      (∃ node, parse (String.ofList (encode text.toList)) p = .ok node ∧
        ∀ settings e s, Eval.Ends (fun steps => Eval.evaluate settings steps node e) s
          (.string text) s) ∧
      ∀ settings path e s, ∃ n, ∀ steps, n ≤ steps →
        Program.run settings steps path (String.ofList ('"' :: encode text.toList ++ ['"'])) e s =
          .value (.string text) ((s.emit (.parsed path)).emit (.evaluated path .string)) := by
  have hparse (pieces : List (List Char × String)) (h : ∀ piece ∈ pieces, Balanced piece.1) :
      parse (String.ofList (written text pieces)) p =
        (parts (p.advance '"') text pieces).map (⟨.template ·, p⟩) := by
    rw [parse_eq, String.toList_ofList, mapM_segments text pieces h]
  refine ⟨hparse pieces h, ⟨_, hparse [] (List.forall_mem_nil _), fun settings e s => ?_⟩,
    fun settings path e s => ?_⟩
  · exact template_ends settings text p (p.advance '"') e s
  · exact Program.run_of_ends (parse_quoted text) (template_ends settings text _ _ e _)

/-- A dollar in front of an expression, in which a brace stands between single quotes. -/
theorem parse_written_dollar :
    (∀ piece ∈ [(['\'', '\x7d', '\''], "")], Balanced piece.1) ∧
      parse (String.ofList (written "$" [(['\'', '\x7d', '\''], "")])) .start =
        .ok ⟨.template [⟨.text "$", ⟨1, 2⟩⟩, ⟨.text "\x7d", ⟨1, 6⟩⟩], .start⟩ := by
  have hbalanced : ∀ piece ∈ [(['\'', '\x7d', '\''], "")], Balanced piece.1 := by decide
  refine ⟨hbalanced, (parse_written "$" _ hbalanced .start).1.trans ?_⟩
  rfl

end Template
end Scriptlet
