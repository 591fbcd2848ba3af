import Scriptlet.Proofs.Token.Coverage
/-!
# Where block comments end

A block comment ends at the first closing sign behind its opening sign. Its pattern says so only
through runs of stars and the characters after them; the scan looks for the closing sign directly.
Main statement: the pattern covers exactly one piece at the front of a text, the one up to that
sign, so that a scan leaves everything behind it for later (`Lexeme.blockComment_ends_at_closer`).
-/
namespace Scriptlet

theorem Position.line_after (p : Position) (text : List Char) :
    (p.after text).line = p.line + text.count '\n' := by
  induction text generalizing p with
  | nil => rfl
  | cons c text ih =>
    rw [after_cons, ih, advance]
    by_cases hc : c = '\n'
    · subst hc
      simp [Nat.add_comm, Nat.add_left_comm]
    · simp [hc]

theorem LineCount.line_track (k : LineCount) (offset : Nat) (text : List Char) :
    (k.track offset text).line = k.line + text.count '\n' := by
  induction text generalizing k offset with
  | nil => rfl
  | cons c text ih =>
    rw [track, ih]
    by_cases hc : c = '\n'
    · subst hc
      simp [Nat.add_comm, Nat.add_left_comm]
    · simp [hc]

/-- A tracked piece moves the count by the line feeds in it. -/
theorem LineCount.line_step (k : LineCount) (before : List Char) {found : Lexeme.Scan}
    (h : found.isTracked) : (k.step before found).line = k.line + found.text.count '\n' := by
  rw [step, if_pos h, line_track]

/-- It makes no difference how many more lexemes than characters may be cut. -/
theorem Token.scan_congr {m n : Nat} {cs : List Char} (hm : cs.length ≤ m) (hn : cs.length ≤ n)
    (p : Position) : scan m cs p = scan n cs p := by
  induction m generalizing n cs p with
  | zero =>
    obtain rfl := List.length_eq_zero_iff.1 (Nat.le_zero.1 hm)
    cases n <;> rfl
  | succ m ih =>
    cases cs with
    | nil => cases n <;> rfl
    | cons c cs =>
      have hlt := length_first_rest_lt c cs
      cases n with
      | zero => simp at hn
      | succ n => rw [scan, scan, ih (n := n) (by omega) (by omega)]

/-- A piece that is skipped leaves no trace but the place that it leads to. -/
theorem Token.tokenize_of_skipped {c : Char} {cs text rest : List Char}
    (h : Lexeme.first c cs = ⟨.skipped, text, rest⟩) (p : Position) :
    tokenize (c :: cs) p = tokenize rest (p.after text) := by
  have hlt := length_first_rest_lt c cs
  rw [h, List.length_cons] at hlt
  rw [tokenize, List.length_cons, scan, h]
  exact scan_congr (by omega) (Nat.le_refl _) _

namespace Lexeme

/-- The closing sign of a block comment stands behind the first `k` characters of a text. -/
def ClosesAt (text : List Char) (k : Nat) : Prop :=
  ['*', '/'] <+: text.drop k

/-- It is the first one behind the opening sign, which takes two characters. -/
structure IsCloser (text : List Char) (k : Nat) : Prop where
  behind : 2 ≤ k
  closes : ClosesAt text k
  first : ∀ j, 2 ≤ j → j < k → ¬ ClosesAt text j

section Closer

variable {cs body rest text : List Char} {k : Nat}

theorem exists_isCloser (h : ∃ k, 2 ≤ k ∧ ClosesAt text k) : ∃ k, IsCloser text k := by
  classical
  obtain ⟨hbehind, hcloses⟩ := Nat.find_spec h
  exact ⟨_, hbehind, hcloses, fun j hj hlt hclose => Nat.find_min h hlt ⟨hj, hclose⟩⟩

theorem commentBody?_of_closesAt (hcloses : ClosesAt cs k) (hfirst : ∀ j < k, ¬ ClosesAt cs j) :
    commentBody? cs = some (cs.take (k + 2), cs.drop (k + 2)) := by
  induction k generalizing cs with
  | zero =>
    obtain ⟨rest, rfl⟩ := hcloses
    rfl
  | succ k ih =>
    cases cs with
    | nil => simp [ClosesAt] at hcloses
    | cons c cs =>
      have hopen : c = '*' → cs.head? ≠ some '/' := by
        rintro rfl hhead
        obtain ⟨rest, rfl⟩ := List.head?_eq_some_iff.1 hhead
        exact hfirst 0 (Nat.succ_pos k) ⟨rest, rfl⟩
      rw [Pattern.commentBody?_cons hopen, ih hcloses fun j hj => hfirst (j + 1) (by omega)]
      rfl

theorem exists_closesAt (h : commentBody? cs = some (body, rest)) : ∃ k, ClosesAt cs k := by
  fun_induction commentBody? cs generalizing body rest with
  | case1 => cases h
  | case2 => exact ⟨0, _, rfl⟩
  | case3 c cs _ ih =>
    obtain ⟨⟨body, rest⟩, hbody, -⟩ := Option.map_eq_some_iff.1 h
    obtain ⟨k, hk⟩ := ih hbody
    exact ⟨k + 1, hk⟩

theorem commentBody?_of_blockComment {comment : List Char} (h : comment ∈ Pattern.blockComment)
    (hfront : comment <+: '/' :: '*' :: cs) :
    ∃ body rest, comment = '/' :: '*' :: body ∧ commentBody? cs = some (body, rest) := by
  obtain ⟨body, hbody, rfl⟩ := Pattern.mem_exactly_mul.1 h
  obtain ⟨rest, heq⟩ := hfront
  cases heq
  exact ⟨body, rest, rfl, Pattern.commentBody?_of_mem hbody rest⟩

theorem IsCloser.commentBody? (h : IsCloser ('/' :: '*' :: cs) k) :
    commentBody? cs = some (cs.take k, cs.drop k) := by
  obtain ⟨j, rfl⟩ := Nat.exists_eq_add_of_le' h.behind
  exact commentBody?_of_closesAt h.closes fun i hi => h.first (i + 2) (by omega) (by omega)

theorem IsCloser.first_eq (h : IsCloser ('/' :: '*' :: cs) k) :
    Lexeme.first '/' ('*' :: cs) =
      ⟨.skipped, ('/' :: '*' :: cs).take (k + 2), ('/' :: '*' :: cs).drop (k + 2)⟩ := by
  rw [first_slash_star, h.commentBody?]
  rfl

theorem IsCloser.mem_blockComment_iff (h : IsCloser ('/' :: '*' :: cs) k) {comment : List Char}
    (hfront : comment <+: '/' :: '*' :: cs) :
    comment ∈ Pattern.blockComment ↔ comment = ('/' :: '*' :: cs).take (k + 2) := by
  constructor
  · intro hcomment
    obtain ⟨body, rest, rfl, hbody⟩ := commentBody?_of_blockComment hcomment hfront
    rw [h.commentBody?] at hbody
    cases hbody
    rfl
  · rintro rfl
    exact Language.append_mem_mul (a := ['/', '*']) rfl (Pattern.mem_of_commentBody? h.commentBody?)

end Closer

/-- A text that begins with the opening sign of a block comment has a comment at its front exactly
if a closing sign stands behind the opening one, and then it has only one. With the first closing
sign, no rule covers more than the comment up to there, the text after it is cut as if it stood
alone, and the count of the lines has moved by the line feeds in the comment. The star of the
opening sign closes nothing. -/
theorem blockComment_ends_at_closer (cs : List Char) :
    let text := '/' :: '*' :: cs
    ((∃ comment ∈ Pattern.blockComment, comment <+: text) ↔ ∃ k, 2 ≤ k ∧ ClosesAt text k) ∧
    ((∃ k, 2 ≤ k ∧ ClosesAt text k) →
      ∃! comment, comment ∈ Pattern.blockComment ∧ comment <+: text) ∧
    (∀ k, IsCloser text k →
      (∀ comment, comment <+: text →
        (comment ∈ Pattern.blockComment ↔ comment = text.take (k + 2))) ∧
      (∀ rule ∈ rules, ∀ piece ∈ rule.pattern, piece <+: text → piece.length ≤ k + 2) ∧
      ∀ p count before,
        Token.tokenize text p =
          Token.tokenize (text.drop (k + 2)) (p.after (text.take (k + 2))) ∧
        (p.after (text.take (k + 2))).line = p.line + (text.take (k + 2)).count '\n' ∧
        (LineCount.step count before (first '/' ('*' :: cs))).line =
          count.line + (text.take (k + 2)).count '\n') ∧
    ['/', '*', '/'] ∉ Pattern.blockComment := by
  intro text
  have hcovered {k : Nat} (h : IsCloser text k) :
      text.take (k + 2) ∈ Pattern.blockComment ∧ text.take (k + 2) <+: text :=
    have hfront := List.take_prefix (k + 2) text
    ⟨(h.mem_blockComment_iff hfront).2 rfl, hfront⟩
  refine ⟨⟨?_, fun h => ?_⟩, fun h => ?_,
    fun k h => ⟨fun comment => h.mem_blockComment_iff, ?_, ?_⟩, ?_⟩
  · rintro ⟨comment, hcomment, hfront⟩
    obtain ⟨body, rest, -, hbody⟩ := commentBody?_of_blockComment hcomment hfront
    obtain ⟨k, hk⟩ := exists_closesAt hbody
    exact ⟨k + 2, by omega, hk⟩
  · obtain ⟨k, hk⟩ := exists_isCloser h
    exact ⟨_, (hcovered hk).1, (hcovered hk).2⟩
  · obtain ⟨k, hk⟩ := exists_isCloser h
    exact ⟨_, hcovered hk, fun comment h => (hk.mem_blockComment_iff h.2).1 h.1⟩
  · have hfirst : IsLongest text (first '/' ('*' :: cs)).text (first '/' ('*' :: cs)).lexeme :=
      first_isLongest (by simp [h.first_eq])
    rw [h.first_eq] at hfirst
    intro rule hrule piece hpiece hfront
    exact (hfirst.longest rule hrule piece hpiece hfront).trans (List.length_take_le _ _)
  · intro p count before
    refine ⟨Token.tokenize_of_skipped h.first_eq p, p.line_after _, ?_⟩
    rw [LineCount.line_step _ _ (by rw [h.first_eq]; rfl), h.first_eq]
  · intro h
    have hfront : ['/', '*', '/'] <+: '/' :: '*' :: ['/'] := List.prefix_refl _
    obtain ⟨body, rest, heq, hbody⟩ := commentBody?_of_blockComment h hfront
    cases hbody

/-- Stars before the closing slash belong to the comment; the slash behind a letter closes nothing,
and the name between two comments is left for later. -/
theorem blockComment_ends_at_closer_starsBefore :
    IsCloser "/* a/ **/x/* b */".toList 7 ∧
    (∀ comment, comment <+: "/* a/ **/x/* b */".toList →
      (comment ∈ Pattern.blockComment ↔ comment = "/* a/ **/".toList)) ∧
    ∀ p, Token.tokenize "/* a/ **/x/* b */".toList p =
      Token.tokenize "x/* b */".toList (p.after "/* a/ **/".toList) := by
  have hcloser : IsCloser "/* a/ **/x/* b */".toList 7 :=
    ⟨by decide, by simp [ClosesAt], by simp only [ClosesAt]; decide⟩
  obtain ⟨-, -, hclosed, -⟩ := blockComment_ends_at_closer " a/ **/x/* b */".toList
  obtain ⟨hcovered, -, hrest⟩ := hclosed 7 hcloser
  exact ⟨hcloser, hcovered, fun p => (hrest p ⟨0, 0⟩ []).1⟩

end Lexeme
end Scriptlet
