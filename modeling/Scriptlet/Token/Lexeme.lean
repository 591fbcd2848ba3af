import Scriptlet.Token
/-!
Lexemes: the pieces that a source text is cut into, each as long as the rules allow. A piece is a
token, or blank space or a comment, or text that begins no lexeme at all. Main statement: a scan
covers a non-empty front part of the text and leaves the rest as it is (`first_covers`).
-/
namespace Scriptlet

inductive Lexeme where
  | token (t : Token)
  /-- Blank space or a comment. -/
  | skipped
  | unrecognized

namespace Lexeme

/-- Blank space within a line. -/
def isBlank (c : Char) : Bool :=
  c = ' ' || c = '\t' || c = '\r' || c = '\x0c'

def startsName (c : Char) : Bool :=
  ('a' ≤ c && c ≤ 'z') || ('A' ≤ c && c ≤ 'Z') || c = '_'

def isDecimal (c : Char) : Bool :=
  '0' ≤ c && c ≤ '9'

def continuesName (c : Char) : Bool :=
  startsName c || isDecimal c

/-- A lexeme, the text that it covers, and the text after it. -/
structure Scan where
  lexeme : Lexeme
  text : List Char
  rest : List Char

/-- A lexeme that goes on as long as its characters satisfy `p`. -/
def run (p : Char → Bool) (make : List Char → Lexeme) (c : Char) (cs : List Char) : Scan :=
  let text := c :: cs.takeWhile p
  ⟨make text, text, cs.dropWhile p⟩

/-- A text in single quotes, given what follows the opening quote. -/
def plainText (cs : List Char) : Scan :=
  let body := cs.takeWhile (· ≠ '\'')
  match cs.dropWhile (· ≠ '\'') with
  | quote :: rest => ⟨.token (.plain (String.ofList body)), '\'' :: body ++ [quote], rest⟩
  | [] => ⟨.unrecognized, '\'' :: cs, []⟩

/-- The part of a template up to its closing quote, and the text from that quote on. A backslash
keeps the character after it, which may not be a line feed: there the part ends early. -/
def templateBody : List Char → List Char × List Char
  | [] => ([], [])
  | '\\' :: '\n' :: rest => (['\\'], '\n' :: rest)
  | '\\' :: c :: rest =>
    let (body, after) := templateBody rest
    ('\\' :: c :: body, after)
  | c :: rest =>
    if c = '"' then ([], c :: rest)
    else
      let (body, after) := templateBody rest
      (c :: body, after)

def templateText (cs : List Char) : Scan :=
  match templateBody cs with
  | (body, '"' :: rest) => ⟨.token (.template (String.ofList body)), '"' :: body ++ ['"'], rest⟩
  | (body, rest) => ⟨.unrecognized, '"' :: body, rest⟩

/-- The inside of a block comment with its closing sign, and the text after it. -/
def commentBody? : List Char → Option (List Char × List Char)
  | [] => none
  | '*' :: '/' :: rest => some (['*', '/'], rest)
  | c :: rest => (commentBody? rest).map fun (body, after) => (c :: body, after)

/-- The first sign of the list that the text starts with. -/
def sign (c : Char) (cs : List Char) : Scan :=
  match Token.signs.find? fun (spelling, _) => spelling.isPrefixOf (c :: cs) with
  | some (spelling, t) => ⟨.token t, spelling, (c :: cs).drop spelling.length⟩
  | none => ⟨.unrecognized, [c], cs⟩

/-- The longest lexeme at the front of a text. -/
def first (c : Char) (cs : List Char) : Scan :=
  if isBlank c then run isBlank (fun _ => .skipped) c cs
  else if isDecimal c then run isDecimal (fun text => .token (.number (String.ofList text))) c cs
  else if startsName c then
    run continuesName (fun text => .token (.ofWord (String.ofList text))) c cs
  else if c = '\'' then plainText cs
  else if c = '"' then templateText cs
  else
    match c, cs with
    | '/', '/' :: _ => run (· ≠ '\n') (fun _ => .skipped) c cs
    | '/', '*' :: rest =>
      match commentBody? rest with
      | some (body, after) => ⟨.skipped, '/' :: '*' :: body, after⟩
      | none => sign c cs
    | _, _ => sign c cs

theorem templateBody_covers (cs : List Char) :
    (templateBody cs).1 ++ (templateBody cs).2 = cs := by
  fun_induction templateBody cs <;> simp_all

theorem commentBody?_covers {cs body rest : List Char}
    (h : commentBody? cs = some (body, rest)) : body ++ rest = cs := by
  fun_induction commentBody? cs generalizing body rest with
  | case1 => simp at h
  | case2 =>
    simp only [Option.some.injEq, Prod.mk.injEq] at h
    obtain ⟨rfl, rfl⟩ := h
    rfl
  | case3 c cs _ ih =>
    obtain ⟨⟨b, r⟩, hb, he⟩ := Option.map_eq_some_iff.1 h
    simp only [Prod.mk.injEq] at he
    obtain ⟨rfl, rfl⟩ := he
    simp [ih hb]

theorem run_covers (p : Char → Bool) (make : List Char → Lexeme) (c : Char) (cs : List Char) :
    (run p make c cs).text ++ (run p make c cs).rest = c :: cs := by
  simp [run]

theorem plainText_covers (cs : List Char) :
    (plainText cs).text ++ (plainText cs).rest = '\'' :: cs := by
  have h := List.takeWhile_append_dropWhile (p := fun c => decide (c ≠ '\'')) (l := cs)
  unfold plainText
  split
  · next quote rest he =>
    rw [he] at h
    simpa using h
  · simp

theorem templateText_covers (cs : List Char) :
    (templateText cs).text ++ (templateText cs).rest = '"' :: cs := by
  have h := templateBody_covers cs
  unfold templateText
  split
  · next body rest he =>
    rw [he] at h
    simpa using h
  · next body rest _ he =>
    rw [he] at h
    simpa using h

theorem sign_covers (c : Char) (cs : List Char) :
    (sign c cs).text ++ (sign c cs).rest = c :: cs := by
  unfold sign
  split
  · next spelling t hf =>
    have hp : spelling <+: c :: cs := by simpa using List.find?_some hf
    obtain ⟨rest, hr⟩ := hp
    simp [← hr]
  · rfl

theorem first_covers (c : Char) (cs : List Char) :
    (first c cs).text ++ (first c cs).rest = c :: cs := by
  unfold first
  split
  · exact run_covers ..
  split
  · exact run_covers ..
  split
  · exact run_covers ..
  split
  · next h => subst h; exact plainText_covers cs
  split
  · next h => subst h; exact templateText_covers cs
  split
  · exact run_covers ..
  · split
    · next rest _ body after hc => simp [← commentBody?_covers hc]
    · exact sign_covers ..
  · exact sign_covers ..

theorem signs_ne_nil : ∀ s ∈ Token.signs, s.1 ≠ [] := by
  decide

theorem sign_text_ne_nil (c : Char) (cs : List Char) : (sign c cs).text ≠ [] := by
  unfold sign
  split
  · next hf => exact signs_ne_nil _ (List.mem_of_find?_eq_some hf)
  · simp

theorem first_text_ne_nil (c : Char) (cs : List Char) : (first c cs).text ≠ [] := by
  unfold first plainText templateText
  repeat' split
  all_goals simp [run, sign_text_ne_nil]

end Lexeme
end Scriptlet
