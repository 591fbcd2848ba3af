import Mathlib.Algebra.GroupWithZero.Nat
import Mathlib.Data.List.Induction
import Scriptlet.Syntax.Template
import Scriptlet.Token.Stream
/-!
# Where tokens stand

A token covers its spelling, and its place is what the text before it leads to. Main statements: the
tokens of a text stand in it (`Token.Scanned.stands`), and so do the segments of a template
(`Template.segments_stand`). Both are relative to the place where the text begins, so that they
can be put together for code inside templates inside code.
-/
namespace Scriptlet

theorem Position.start_after (text : List Char) :
    Position.start.after text = ⟨1 + text.count '\n',
      1 + ((text.reverse.takeWhile (· ≠ '\n')).map Char.utf8Size).sum⟩ := by
  induction text using List.reverseRecOn with
  | nil => rfl
  | append_singleton text c ih =>
    rw [after_append, ih, after_cons, after_nil, advance]
    by_cases hc : c = '\n'
    · subst hc
      simp [Nat.add_assoc]
    · simp [hc]
      omega

/-- In a source that begins at `start`, the given text stands at `p`. -/
def Stands (source : List Char) (start p : Position) (text : List Char) : Prop :=
  ∃ before after, source = before ++ (text ++ after) ∧ p = start.after before

namespace Stands

variable {source text inner : List Char} {start p q : Position} {c : Char}

theorem front (p : Position) (text after : List Char) : Stands (text ++ after) p p text :=
  ⟨[], after, rfl, rfl⟩

theorem nil (source : List Char) (p : Position) : Stands source p p [] :=
  front p [] source

theorem append (h : Stands source (start.after text) p inner) :
    Stands (text ++ source) start p inner := by
  obtain ⟨before, after, rfl, rfl⟩ := h
  exact ⟨text ++ before, after, by rw [List.append_assoc], by rw [Position.after_append]⟩

theorem cons (h : Stands source (start.advance c) p text) : Stands (c :: source) start p text := by
  obtain ⟨before, after, rfl, rfl⟩ := h
  exact ⟨c :: before, after, rfl, rfl⟩

theorem trans (h : Stands source start p text) (h' : Stands text p q inner) :
    Stands source start q inner := by
  obtain ⟨before, after, rfl, rfl⟩ := h
  obtain ⟨before', after', rfl, rfl⟩ := h'
  refine ⟨before ++ before', after' ++ after, ?_, by rw [Position.after_append]⟩
  simp only [List.append_assoc]

theorem left (h : Stands source start p (text ++ inner)) : Stands source start p text :=
  h.trans (front p text inner)

theorem here (h : Stands source start p text) : Stands source start p [] :=
  h.trans (nil text p)

theorem tail (h : Stands source start p (c :: text)) : Stands source start (p.advance c) text := by
  obtain ⟨before, after, rfl, rfl⟩ := h
  exact ⟨before ++ [c], after, by simp, by rw [Position.after_append]; rfl⟩

/-- A place in a text, or just past it, is that of a character if one more follows. -/
theorem exists_char (h : Stands text start p []) (c : Char) :
    ∃ d, Stands (text ++ [c]) start p [d] := by
  obtain ⟨before, after, rfl, rfl⟩ := h
  cases after with
  | nil => exact ⟨c, before, [], by simp, rfl⟩
  | cons d after => exact ⟨d, before, after ++ [c], by simp, rfl⟩

end Stands

/-! ## Tokens -/

namespace Token

def spelling : Token → List Char
  | number digits => digits.toList
  | identifier name => name.toList
  | plain text => '\'' :: text.toList ++ ['\'']
  | template raw => '"' :: raw.toList ++ ['"']
  | t =>
    match keywords.find? (·.2 = t) with
    | some (word, _) => word.toList
    | none => ((signs.find? (·.2 = t)).map (·.1)).getD []

theorem spelling_of_mem_keywords : ∀ k ∈ keywords, k.2.spelling = k.1.toList := by
  decide

theorem spelling_of_mem_signs : ∀ s ∈ signs, s.2.spelling = s.1 := by
  decide

theorem spelling_ofWord (word : String) : (ofWord word).spelling = word.toList := by
  rw [ofWord]
  cases hlookup : keywords.lookup word with
  | none => rfl
  | some t =>
    obtain ⟨before, after, hmem, -⟩ := List.lookup_eq_some_iff.1 hlookup
    exact spelling_of_mem_keywords (word, t) (by rw [hmem]; simp)

end Token

namespace Lexeme

theorem eq_quote_of_dropWhile {cs rest : List Char} {quote : Char}
    (h : cs.dropWhile (· ≠ '\'') = quote :: rest) : quote = '\'' := by
  have hhead := List.head?_dropWhile_not (p := fun c => decide (c ≠ '\'')) cs
  rw [h] at hhead
  simpa using hhead

theorem plainText_text {cs : List Char} {t : Token} (h : (plainText cs).lexeme = .token t) :
    (plainText cs).text = t.spelling := by
  unfold plainText at h ⊢
  split at h
  · next quote rest hdrop =>
    cases h
    simp [Token.spelling, eq_quote_of_dropWhile hdrop]
  · cases h

theorem templateText_text {cs : List Char} {t : Token}
    (h : (templateText cs).lexeme = .token t) : (templateText cs).text = t.spelling := by
  unfold templateText at h ⊢
  split at h
  · cases h
    simp [Token.spelling]
  · cases h

theorem sign_text {c : Char} {cs : List Char} {t : Token} (h : (sign c cs).lexeme = .token t) :
    (sign c cs).text = t.spelling := by
  unfold sign at h ⊢
  split at h
  · next spelling t' hfind =>
    cases h
    exact (Token.spelling_of_mem_signs _ (List.mem_of_find?_eq_some hfind)).symm
  · cases h

theorem first_text {c : Char} {cs : List Char} {t : Token}
    (h : (first c cs).lexeme = .token t) : (first c cs).text = t.spelling := by
  generalize hs : first c cs = s at h ⊢
  unfold first at hs
  split at hs
  · subst hs
    cases h
  split at hs
  · subst hs
    cases h
    simp [run, Token.spelling]
  split at hs
  · subst hs
    cases h
    simp [run, Token.spelling_ofWord]
  split at hs
  · subst hs
    exact plainText_text h
  split at hs
  · subst hs
    exact templateText_text h
  split at hs
  · subst hs
    cases h
  · split at hs
    · subst hs
      cases h
    · subst hs
      exact sign_text h
  · subst hs
    exact sign_text h

end Lexeme

namespace Token

/-- The tokens of a text that begins at a place, lexeme by lexeme. -/
inductive Scanned : List Char → Position → Tokens → Prop
  | done {p : Position} : Scanned [] p []
  | token {c : Char} {cs : List Char} {p : Position} {t : Token} {ts : Tokens} :
      (Lexeme.first c cs).lexeme = .token t →
      Scanned (Lexeme.first c cs).rest (p.after (Lexeme.first c cs).text) ts →
      Scanned (c :: cs) p ((t, p) :: ts)
  | skipped {c : Char} {cs : List Char} {p : Position} {ts : Tokens} :
      (Lexeme.first c cs).lexeme = .skipped →
      Scanned (Lexeme.first c cs).rest (p.after (Lexeme.first c cs).text) ts →
      Scanned (c :: cs) p ts

theorem length_first_rest_lt (c : Char) (cs : List Char) :
    (Lexeme.first c cs).rest.length < (c :: cs).length := by
  have hcover := congrArg List.length (Lexeme.first_covers c cs)
  have htext := List.length_pos_iff.2 (Lexeme.first_text_ne_nil c cs)
  rw [List.length_append] at hcover
  omega

theorem scan_eq_ok {n : Nat} {cs : List Char} {p : Position} {ts : Tokens} (hn : cs.length ≤ n) :
    scan n cs p = .ok ts ↔ Scanned cs p ts := by
  induction n generalizing cs p ts with
  | zero =>
    cases cs with
    | nil => exact ⟨fun h => by cases h; exact .done, fun h => by cases h; rfl⟩
    | cons c cs => simp at hn
  | succ n ih =>
    cases cs with
    | nil => exact ⟨fun h => by cases h; exact .done, fun h => by cases h; rfl⟩
    | cons c cs =>
      have hlt := length_first_rest_lt c cs
      have hrest : (Lexeme.first c cs).rest.length ≤ n := by omega
      rw [scan]
      constructor
      · intro h
        split at h
        · next t ht =>
          cases hscan : scan n (Lexeme.first c cs).rest (p.after (Lexeme.first c cs).text) with
          | error e =>
            rw [hscan] at h
            cases h
          | ok more =>
            rw [hscan] at h
            cases h
            exact .token ht ((ih hrest).1 hscan)
        · next hs => exact .skipped hs ((ih hrest).1 h)
        · cases h
      · intro h
        cases h with
        | token ht hmore =>
          rw [ht]
          dsimp only
          rw [(ih hrest).2 hmore]
          rfl
        | skipped hs hmore =>
          rw [hs]
          exact (ih hrest).2 hmore

theorem tokenize_eq_ok {source : List Char} {p : Position} {ts : Tokens} :
    tokenize source p = .ok ts ↔ Scanned source p ts :=
  scan_eq_ok (Nat.le_refl _)

theorem Scanned.stands {cs : List Char} {p : Position} {ts : Tokens} (h : Scanned cs p ts) :
    ∀ t ∈ ts, Stands cs p t.2 t.1.spelling := by
  induction h with
  | done => simp
  | @token c cs p t ts ht _ ih =>
    have hcover := Lexeme.first_covers c cs
    rw [← hcover, List.forall_mem_cons]
    refine ⟨?_, fun t ht => (ih t ht).append⟩
    rw [Lexeme.first_text ht]
    exact .front p _ _
  | @skipped c cs p ts _ _ ih =>
    have hcover := Lexeme.first_covers c cs
    rw [← hcover]
    exact fun t ht => (ih t ht).append

end Token

/-! ## Segments of templates -/

namespace Template

/-- The part of the raw text that a segment is known to cover: its code, if it has some. -/
def Segment.source : Segment → List Char
  | .code source => source
  | _ => []

def AllStand (cs : List Char) (p : Position) (more : List (Segment × Position)) : Prop :=
  ∀ s ∈ more, Stands cs p s.2 s.1.source

theorem AllStand.cons {c : Char} {cs : List Char} {p : Position} {more : List (Segment × Position)}
    (h : AllStand cs (p.advance c) more) : AllStand (c :: cs) p more :=
  fun s hs => (h s hs).cons

theorem AllStand.textSegment_append {cs : List Char} {p : Position}
    {more : List (Segment × Position)} (h : AllStand cs p more) (text : List Char) :
    AllStand cs p (textSegment text p ++ more) := by
  intro s hs
  rcases List.mem_append.1 hs with hs | hs
  · rw [textSegment] at hs
    split at hs
    · cases hs
    · cases List.mem_singleton.1 hs
      exact .nil cs p
  · exact h s hs

theorem textFrom_stand :
    (∀ (p : Position) (cs : List Char), AllStand cs p (textFrom p cs).2) ∧
      ∀ (depth : Nat) (quoted : Bool) (p : Position) (cs : List Char),
        ∀ source more, codeFrom depth quoted p cs = some (source, more) →
          source <+: cs ∧ AllStand cs p more := by
  apply textFrom.mutual_induct
  · intro p s hs
    cases hs
  · intro p s hs
    cases hs
  · intro p c rest text more heq ih
    rw [textFrom, heq]
    rw [heq] at ih
    exact ih.cons.cons
  · intro p rest start source more heq ih
    obtain ⟨⟨after, rfl⟩, hmore⟩ := ih source more heq
    rw [textFrom]
    simp only [start] at heq
    rw [heq]
    exact List.forall_mem_cons.2 ⟨(Stands.front _ source after).cons.cons, hmore.cons.cons⟩
  · intro p rest start heq _
    rw [textFrom]
    simp only [start] at heq
    rw [heq]
    exact List.forall_mem_singleton.2 (.nil _ p)
  · intro p c rest h1 h2 h3 text more heq ih
    rw [textFrom]
    · rw [heq]
      rw [heq] at ih
      exact ih.cons
    · exact h1
    · exact h2
    · exact h3
  · intro depth quoted p source more h
    cases h
  · intro depth quoted p c rest hc start text more heq ih source more' h
    rw [codeFrom, if_pos hc] at h
    dsimp only at h
    rw [heq] at h ih
    cases h
    exact ⟨List.nil_prefix, (ih.textSegment_append text).cons⟩
  · intro depth quoted p c rest hc depth' quoted' ih source more h
    rw [codeFrom, if_neg hc] at h
    dsimp only at h
    obtain ⟨⟨source', more'⟩, hcode, heq⟩ := Option.map_eq_some_iff.1 h
    obtain ⟨hsource, hmore⟩ := ih source' more' hcode
    cases heq
    exact ⟨List.prefix_cons_inj c |>.2 hsource, hmore.cons⟩

theorem segments_stand (raw : List Char) (p : Position) : AllStand raw p (segments raw p) :=
  (textFrom_stand.1 p raw).textSegment_append _

end Template
end Scriptlet
