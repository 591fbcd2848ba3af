import Scriptlet.Proofs.Token.Rules
/-!
# Pieces of a source and their places

A text is cut into pieces without gaps, and the place of a piece is what the text before it leads
to. There are two ways to find that place: to look through the whole text before the piece again
(`Position.rescan`), or to keep count of the lines on the way (`LineCount`). Main statement: cutting
with the count gives what cutting gives, and the pieces cover the text up to its end or up to the
first place where no rule applies (`Token.tokenize_covers`).
-/
namespace Scriptlet

open Computability

def byteLength (text : List Char) : Nat :=
  (text.map Char.utf8Size).sum

@[simp]
theorem byteLength_nil : byteLength [] = 0 := rfl

@[simp]
theorem byteLength_cons (c : Char) (cs : List Char) :
    byteLength (c :: cs) = c.utf8Size + byteLength cs := by
  simp [byteLength]

@[simp]
theorem byteLength_append (a b : List Char) :
    byteLength (a ++ b) = byteLength a + byteLength b := by
  simp [byteLength]

/-! ## Looking through the text before -/

def lastBreak? : List Char → Option Nat
  | [] => none
  | c :: cs =>
    match lastBreak? cs with
    | some bytes => some (c.utf8Size + bytes)
    | none => if c = '\n' then some 0 else none

theorem lastBreak?_append_singleton (text : List Char) (c : Char) :
    lastBreak? (text ++ [c]) = if c = '\n' then some (byteLength text) else lastBreak? text := by
  induction text with
  | nil => simp [lastBreak?]
  | cons d text ih =>
    rw [List.cons_append, lastBreak?, ih, lastBreak?]
    split_ifs <;> simp

theorem lastBreak?_lt {text : List Char} {bytes : Nat} (h : lastBreak? text = some bytes) :
    bytes < byteLength text := by
  induction text using List.reverseRecOn with
  | nil => cases h
  | append_singleton text c ih =>
    have hc := c.utf8Size_pos
    rw [lastBreak?_append_singleton] at h
    rw [byteLength_append, byteLength_cons, byteLength_nil]
    split_ifs at h with hbreak
    · cases h
      omega
    · have := ih h
      omega

theorem count_of_lastBreak?_eq_none {text : List Char} (h : lastBreak? text = none) :
    text.count '\n' = 0 := by
  induction text using List.reverseRecOn with
  | nil => rfl
  | append_singleton text c ih =>
    rw [lastBreak?_append_singleton] at h
    split_ifs at h with hbreak
    rw [List.count_append, ih h]
    simp [hbreak]

theorem count_of_lastBreak?_eq_some {text : List Char} {bytes : Nat}
    (h : lastBreak? text = some bytes) : text.count '\n' ≠ 0 := by
  induction text using List.reverseRecOn with
  | nil => cases h
  | append_singleton text c ih =>
    rw [lastBreak?_append_singleton] at h
    rw [List.count_append]
    split_ifs at h with hbreak
    · simp [hbreak]
    · have := ih h
      omega

namespace Position

/-- The place just past a text, found by its line feeds and the bytes after the last of them. -/
def rescan (start : Position) (before : List Char) : Position :=
  match lastBreak? before with
  | some bytes => ⟨start.line + before.count '\n', byteLength before - bytes⟩
  | none => ⟨start.line, byteLength before + start.column⟩

theorem rescan_eq_after (start : Position) (before : List Char) :
    start.rescan before = start.after before := by
  induction before using List.reverseRecOn with
  | nil => simp [rescan, lastBreak?]
  | append_singleton text c ih =>
    rw [after_append, ← ih, after_cons, after_nil, advance, rescan, lastBreak?_append_singleton,
      rescan]
    by_cases hc : c = '\n'
    · subst hc
      cases hbreak : lastBreak? text with
      | none => simp [count_of_lastBreak?_eq_none hbreak, show '\n'.utf8Size = 1 from rfl]
      | some bytes => simp [Nat.add_assoc, show '\n'.utf8Size = 1 from rfl]
    · cases hbreak : lastBreak? text with
      | none =>
        simp [hc]
        omega
      | some bytes =>
        have := lastBreak?_lt hbreak
        simp [hc]
        omega

theorem rescan_append (start : Position) (a b : List Char) :
    start.rescan (a ++ b) = (start.rescan a).rescan b := by
  rw [rescan_eq_after, rescan_eq_after, rescan_eq_after, after_append]

/-- No place in a text is past the lines and the bytes that the text has. -/
theorem rescan_le {before source : List Char} (h : before <+: source) (start : Position) :
    (start.rescan before).line ≤ start.line + source.count '\n' ∧
      (start.rescan before).column ≤ start.column + byteLength source := by
  obtain ⟨rest, rfl⟩ := h
  rw [rescan, List.count_append, byteLength_append]
  split
  · exact ⟨by dsimp only; omega, by dsimp only; omega⟩
  · exact ⟨by dsimp only; omega, by dsimp only; omega⟩

end Position

/-! ## Keeping count of the lines -/

/-- The line that a scan has reached, and the bytes before that line. -/
structure LineCount where
  line : Nat
  bytes : Nat

namespace LineCount

def track (k : LineCount) (offset : Nat) : List Char → LineCount
  | [] => k
  | c :: cs =>
    let k := if c = '\n' then ⟨k.line + 1, offset + 1⟩ else k
    k.track (offset + c.utf8Size) cs

/-- The place of what has as many bytes before it as given. The line that the source begins in need
not begin with it. -/
def place (k : LineCount) (start : Position) (offset : Nat) : Position :=
  if k.line = start.line then ⟨k.line, offset + start.column⟩
  else ⟨k.line, offset - k.bytes + 1⟩

theorem track_append (k : LineCount) (offset : Nat) (a b : List Char) :
    k.track offset (a ++ b) = (k.track offset a).track (offset + byteLength a) b := by
  induction a generalizing k offset with
  | nil => rfl
  | cons c a ih => rw [List.cons_append, track, track, ih, byteLength_cons, Nat.add_assoc]

theorem track_of_newline_notMem (k : LineCount) (offset : Nat) {text : List Char}
    (h : '\n' ∉ text) : k.track offset text = k := by
  induction text generalizing offset with
  | nil => rfl
  | cons c text ih =>
    rw [List.mem_cons, not_or] at h
    rw [track, if_neg (Ne.symm h.1), ih _ h.2]

def past (start : Position) (before : List Char) : LineCount :=
  track ⟨start.line, 0⟩ 0 before

theorem past_append (start : Position) (before text : List Char) :
    past start (before ++ text) = (past start before).track (byteLength before) text := by
  rw [past, track_append, Nat.zero_add]
  rfl

theorem past_eq (start : Position) (before : List Char) :
    past start before =
      ⟨start.line + before.count '\n', (lastBreak? before).elim 0 (· + 1)⟩ := by
  induction before using List.reverseRecOn with
  | nil => rfl
  | append_singleton text c ih =>
    rw [past_append, ih, track, track, lastBreak?_append_singleton]
    by_cases hc : c = '\n'
    · subst hc
      simp [Nat.add_assoc]
    · simp [hc]

/-- The count leads to the same place as looking through the text again. -/
theorem place_past (start : Position) (before : List Char) :
    (past start before).place start (byteLength before) = start.rescan before := by
  rw [past_eq, place, Position.rescan]
  cases hbreak : lastBreak? before with
  | none => simp [count_of_lastBreak?_eq_none hbreak]
  | some bytes =>
    have hlt := lastBreak?_lt hbreak
    have hcount := count_of_lastBreak?_eq_some hbreak
    have hline : ¬ start.line + before.count '\n' = start.line := by omega
    rw [if_neg hline]
    simp
    omega

theorem past_le {before source : List Char} (h : before <+: source) (start : Position) :
    (past start before).line ≤ start.line + source.count '\n' ∧
      (past start before).bytes ≤ byteLength source := by
  obtain ⟨rest, rfl⟩ := h
  rw [past_eq, List.count_append, byteLength_append]
  cases hbreak : lastBreak? before with
  | none => simp
  | some bytes =>
    have hlt := lastBreak?_lt hbreak
    simp
    omega

end LineCount

/-! ## Cutting with the count -/

theorem Pattern.notMem_of_mem_one_mul {p q : Char → Bool} {c : Char} {text : List Char}
    (hp : ¬ p c) (hq : ¬ q c) (h : text ∈ one p * (one q)∗) : c ∉ text := by
  obtain ⟨_, ⟨d, hd, rfl⟩, more, hmore, rfl⟩ := Language.mem_mul.1 h
  intro hc
  rcases List.mem_cons.1 hc with rfl | hc
  · exact hp hd
  · exact hq (mem_kstar_one.1 hmore c hc)

namespace Lexeme

/-- The pieces that the count looks into. No other piece has a line feed. -/
def Scan.isTracked (found : Scan) : Bool :=
  match found.lexeme with
  | .token .newline | .token (.plain _) | .token (.template _) => true
  | .skipped => ['/', '*'].isPrefixOf found.text
  | _ => false

theorem newline_notMem_of_not_isTracked {c : Char} {cs : List Char}
    (hfound : (first c cs).lexeme ≠ .unrecognized) (h : ¬ (first c cs).isTracked) :
    '\n' ∉ (first c cs).text := by
  obtain ⟨rule, hrule, htext, hlexeme⟩ := (first_isLongest hfound).covered
  rw [Scan.isTracked] at h
  generalize (first c cs).lexeme = lexeme, (first c cs).text = text at *
  subst hlexeme
  simp only [rules, List.mem_append, List.mem_map, List.mem_cons, List.not_mem_nil, or_false]
    at hrule
  rcases hrule with (⟨k, hk, rfl⟩ | ⟨s, hs, rfl⟩) | rfl | rfl | rfl | rfl | rfl | rfl | rfl
  · have hwords : ∀ k ∈ Token.keywords, '\n' ∉ k.1.toList := by decide
    rw [Pattern.mem_exactly.1 htext]
    exact hwords k hk
  · have hsigns : ∀ s ∈ Token.signs, s.2 ≠ .newline → '\n' ∉ s.1 := by decide
    rw [Pattern.mem_exactly.1 htext]
    refine hsigns s hs fun hnewline => h ?_
    rw [Rule.literal, hnewline]
  · exact Pattern.notMem_of_mem_one_mul (by decide) (by decide) htext
  · exact Pattern.notMem_of_mem_one_mul (by decide) (by decide) htext
  · exact absurd rfl h
  · exact absurd rfl h
  · obtain ⟨body, hbody, rfl⟩ := Pattern.mem_exactly_mul.1 htext
    have hnewline : '\n' ∉ body := fun hmem => by simpa using Pattern.mem_kstar_one.1 hbody _ hmem
    simpa using hnewline
  · obtain ⟨body, -, rfl⟩ := Pattern.mem_exactly_mul.1 htext
    exact absurd rfl h
  · exact Pattern.notMem_of_mem_one_mul (by decide) (by decide) htext

end Lexeme

namespace LineCount

def step (k : LineCount) (before : List Char) (found : Lexeme.Scan) : LineCount :=
  if found.isTracked then k.track (byteLength before) found.text else k

theorem step_past {start : Position} {before : List Char} {c : Char} {cs : List Char}
    (h : (Lexeme.first c cs).lexeme ≠ .unrecognized) :
    (past start before).step before (Lexeme.first c cs) =
      past start (before ++ (Lexeme.first c cs).text) := by
  rw [past_append, step]
  split_ifs with htracked
  · rfl
  · rw [track_of_newline_notMem]
    exact Lexeme.newline_notMem_of_not_isTracked h htracked

theorem step_of_newline_notMem {k : LineCount} {before : List Char} {found : Lexeme.Scan}
    (h : '\n' ∉ found.text) : k.step before found = k := by
  rw [step]
  split_ifs
  · exact track_of_newline_notMem k _ h
  · rfl

theorem place_step (start : Position) (before : List Char) (found : Lexeme.Scan) :
    (if '\n' ∈ found.text then start.rescan before
      else ((past start before).step before found).place start (byteLength before)) =
      start.rescan before := by
  split_ifs with hnewline
  · rfl
  · rw [step_of_newline_notMem hnewline, place_past]

end LineCount

namespace Token

/-- Cuts a text as `scan` does, where the place of a piece with a line feed is looked up in the text
before it, and the place of any other piece is taken from the count. -/
def scanCounting (start : Position) : Nat → List Char → List Char → LineCount →
    Except SyntaxError Tokens
  | 0, _, _, _ => .ok []
  | _ + 1, _, [], _ => .ok []
  | n + 1, before, c :: cs, k =>
    let found := Lexeme.first c cs
    let k := k.step before found
    let p := if '\n' ∈ found.text then start.rescan before else k.place start (byteLength before)
    match found.lexeme with
    | .token t => (scanCounting start n (before ++ found.text) found.rest k).map ((t, p) :: ·)
    | .skipped => scanCounting start n (before ++ found.text) found.rest k
    | .unrecognized => .error ⟨.unrecognizedInput (String.ofList found.text), p⟩

def tokenizeCounting (source : List Char) (start : Position) : Except SyntaxError Tokens :=
  scanCounting start source.length [] source ⟨start.line, 0⟩

theorem scanCounting_eq_scan (start : Position) (n : Nat) (before cs : List Char) :
    scanCounting start n before cs (.past start before) = scan n cs (start.after before) := by
  induction n generalizing before cs with
  | zero => rfl
  | succ n ih =>
    cases cs with
    | nil => rfl
    | cons c cs =>
      have hplace := LineCount.place_step start before (Lexeme.first c cs)
      rw [Position.rescan_eq_after] at hplace
      rw [scanCounting, scan, Position.rescan_eq_after, hplace]
      cases hlexeme : (Lexeme.first c cs).lexeme with
      | token t =>
        rw [LineCount.step_past (by simp [hlexeme]), ih, Position.after_append]
      | skipped =>
        rw [LineCount.step_past (by simp [hlexeme]), ih, Position.after_append]
      | unrecognized => rfl

/-! ## Pieces -/

structure Piece where
  text : List Char
  lexeme : Lexeme

def Piece.joined (pieces : List Piece) : List Char :=
  (pieces.map Piece.text).flatten

/-- The tokens among the pieces that follow a text, each with the place that all of the text before
it leads to. -/
def Piece.tokens (start : Position) : List Char → List Piece → Tokens
  | _, [] => []
  | before, ⟨text, .token t⟩ :: pieces =>
    (t, start.rescan before) :: Piece.tokens start (before ++ text) pieces
  | before, ⟨text, _⟩ :: pieces => Piece.tokens start (before ++ text) pieces

/-- Pieces, with a text after the last of them, each of them the longest that a rule covers at its
place. -/
def Piece.AllLongest (pieces : List Piece) (rest : List Char) : Prop :=
  ∀ before piece after, pieces = before ++ piece :: after →
    piece.text ≠ [] ∧
      Lexeme.IsLongest (Piece.joined (piece :: after) ++ rest) piece.text piece.lexeme

theorem Piece.joined_cons (piece : Piece) (pieces : List Piece) :
    joined (piece :: pieces) = piece.text ++ joined pieces := rfl

theorem Piece.AllLongest.nil (rest : List Char) : AllLongest [] rest := by
  intro before piece after h
  simp at h

theorem Piece.AllLongest.cons {piece : Piece} {pieces : List Piece} {rest : List Char}
    (hne : piece.text ≠ [])
    (hpiece : Lexeme.IsLongest (joined (piece :: pieces) ++ rest) piece.text piece.lexeme)
    (h : AllLongest pieces rest) : AllLongest (piece :: pieces) rest := by
  rintro before piece' after heq
  rcases List.cons_eq_append_iff.1 heq with ⟨rfl, heq⟩ | ⟨before', rfl, rfl⟩
  · cases heq
    exact ⟨hne, hpiece⟩
  · exact h before' piece' after rfl

/-- What cutting a text that follows another says about its pieces. -/
def Explains (start : Position) (before source : List Char) : Except SyntaxError Tokens → Prop
  | .ok ts => ∃ pieces, Piece.AllLongest pieces [] ∧ source = Piece.joined pieces ∧
      ts = Piece.tokens start before pieces
  | .error e => ∃ pieces text rest, Piece.AllLongest pieces (text ++ rest) ∧
      source = Piece.joined pieces ++ (text ++ rest) ∧ text ≠ [] ∧
      (∀ rule ∈ Lexeme.rules, ∀ other ∈ rule.pattern, ¬ other <+: text ++ rest) ∧
      e = ⟨.unrecognizedInput (String.ofList text), start.rescan (before ++ Piece.joined pieces)⟩

/-- The result with a piece in front: a token comes first. -/
def Piece.before (piece : Piece) (p : Position) (result : Except SyntaxError Tokens) :
    Except SyntaxError Tokens :=
  match piece.lexeme with
  | .token t => result.map ((t, p) :: ·)
  | _ => result

theorem Explains.cons {start : Position} {before rest : List Char} (piece : Piece)
    {result : Except SyntaxError Tokens} (hne : piece.text ≠ [])
    (hpiece : Lexeme.IsLongest (piece.text ++ rest) piece.text piece.lexeme)
    (h : Explains start (before ++ piece.text) rest result) :
    Explains start before (piece.text ++ rest) (piece.before (start.rescan before) result) := by
  cases result with
  | ok ts =>
    obtain ⟨pieces, hpieces, rfl, rfl⟩ := h
    have hall : Piece.AllLongest (piece :: pieces) [] := by
      apply hpieces.cons hne
      rwa [List.append_nil, Piece.joined_cons]
    obtain ⟨text, lexeme⟩ := piece
    cases lexeme <;> exact ⟨_, hall, rfl, rfl⟩
  | error e =>
    obtain ⟨pieces, text, more, hpieces, rfl, hrest⟩ := h
    have hall : Piece.AllLongest (piece :: pieces) (text ++ more) := by
      apply hpieces.cons hne
      rwa [Piece.joined_cons, List.append_assoc]
    have herror : piece.before (start.rescan before) (.error e) = .error e := by
      rw [Piece.before]
      split <;> rfl
    rw [herror]
    refine ⟨_, text, more, hall, by rw [Piece.joined_cons, List.append_assoc], ?_⟩
    rwa [Piece.joined_cons, ← List.append_assoc]

theorem scan_explains (start : Position) {n : Nat} {cs : List Char} (hn : cs.length ≤ n)
    (before : List Char) : Explains start before cs (scan n cs (start.after before)) := by
  induction n generalizing before cs with
  | zero =>
    obtain rfl := List.length_eq_zero_iff.1 (Nat.le_zero.1 hn)
    exact ⟨[], .nil [], rfl, rfl⟩
  | succ n ih =>
    cases cs with
    | nil => exact ⟨[], .nil [], rfl, rfl⟩
    | cons c cs =>
      have hlt := length_first_rest_lt c cs
      have hcovers := Lexeme.first_covers c cs
      have hne := Lexeme.first_text_ne_nil c cs
      rw [scan]
      by_cases hfound : (Lexeme.first c cs).lexeme = .unrecognized
      · have huncovered := Lexeme.not_covered_of_unrecognized hfound
        rw [← hcovers] at huncovered
        rw [hfound]
        refine ⟨[], _, _, .nil _, hcovers.symm, hne, huncovered, ?_⟩
        simp [Piece.joined, Position.rescan_eq_after]
      · have hlongest := Lexeme.first_isLongest hfound
        rw [← hcovers] at hlongest
        have hlength : (Lexeme.first c cs).rest.length ≤ n := by omega
        have hrest := ih hlength (before ++ (Lexeme.first c cs).text)
        rw [Position.after_append] at hrest
        have hcons := Explains.cons ⟨(Lexeme.first c cs).text, (Lexeme.first c cs).lexeme⟩
          hne hlongest hrest
        rw [hcovers, Position.rescan_eq_after] at hcons
        cases hlexeme : (Lexeme.first c cs).lexeme with
        | token t => rwa [hlexeme] at hcons
        | skipped => rwa [hlexeme] at hcons
        | unrecognized => exact absurd hlexeme hfound

/-- Cutting a text with a count of its lines is cutting it. If it succeeds, the text is made up of
pieces, each the longest that a rule covers, and the tokens are the pieces that are not skipped, at
the places that the text before them leads to. If it fails, there are such pieces up to a place
where no rule covers anything, and the fault names that place and a text that stands there. Walking
on from a place is walking over both texts, and no number that is met is past the lines and bytes at
hand. -/
theorem tokenize_covers (source : List Char) (start : Position) :
    tokenizeCounting source start = tokenize source start ∧
    (∀ ts, tokenize source start = .ok ts →
      ∃ pieces, Piece.AllLongest pieces [] ∧ source = Piece.joined pieces ∧
        ts = Piece.tokens start [] pieces) ∧
    (∀ e, tokenize source start = .error e →
      ∃ pieces text rest, Piece.AllLongest pieces (text ++ rest) ∧
        source = Piece.joined pieces ++ (text ++ rest) ∧ text ≠ [] ∧
        (∀ rule ∈ Lexeme.rules, ∀ other ∈ rule.pattern, ¬ other <+: text ++ rest) ∧
        e = ⟨.unrecognizedInput (String.ofList text), start.rescan (Piece.joined pieces)⟩) ∧
    (∀ (p : Position) (a b : List Char), p.rescan (a ++ b) = (p.rescan a).rescan b) ∧
    ∀ before, before <+: source →
      ((start.rescan before).line ≤ start.line + source.count '\n' ∧
        (start.rescan before).column ≤ start.column + byteLength source) ∧
      (LineCount.past start before).line ≤ start.line + source.count '\n' ∧
        (LineCount.past start before).bytes ≤ byteLength source := by
  have hscan : Explains start [] source (tokenize source start) :=
    scan_explains start (Nat.le_refl source.length) []
  refine ⟨scanCounting_eq_scan start source.length [] source, fun ts hts => ?_, fun e he => ?_,
    Position.rescan_append, fun before hbefore => ?_⟩
  · rwa [hts] at hscan
  · rwa [he] at hscan
  · exact ⟨Position.rescan_le hbefore start, LineCount.past_le hbefore start⟩

/-- Line feeds in a text and in a comment, before a name, in a source that begins in mid-line. -/
theorem tokenize_covers_lines :
    let source := "'é\n' /*\n\n*/ x".toList
    let ts := [(plain "é\n", ⟨3, 7⟩), (identifier "x", ⟨6, 4⟩)]
    tokenize source ⟨3, 7⟩ = .ok ts ∧
      ∃ pieces, Piece.AllLongest pieces [] ∧ source = Piece.joined pieces ∧
        ts = Piece.tokens ⟨3, 7⟩ [] pieces := by
  intro source ts
  have hts : tokenize source ⟨3, 7⟩ = .ok ts := by rfl
  exact ⟨hts, (tokenize_covers source ⟨3, 7⟩).2.1 ts hts⟩

end Token

end Scriptlet
