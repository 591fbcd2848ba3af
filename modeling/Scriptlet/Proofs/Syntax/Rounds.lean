import Mathlib.Logic.Function.Iterate
import Scriptlet.Proofs.Syntax.Sound
/-!
# Loops of readers that end

A recursive definition is given by its body, which is handed what stands for the recursive calls. It
ends with a result if finitely many unfoldings of the body give that result, whatever stands below
the last of them (`Recursion.Ends`). The loops of the grammar are bounded by the number of tokens;
here their bodies are written without a bound. Main statement: each loop ends with what the bounded
loop gives, as long as every round takes a token (`Parser.many_ends`, `Parser.commaList_ends`,
`Grammar.statementList_ends`, `Grammar.alternatives_ends`).
-/
namespace Scriptlet

namespace Recursion

variable {ι : Type} {σ : ι → Type}

/-- The recursive definition with the given body has the results of `f`: each is reached by finitely
many unfoldings, whatever stands below them. -/
def Ends (body : (∀ i, σ i) → ∀ i, σ i) (f : ∀ i, σ i) : Prop :=
  ∀ i, ∃ n, ∀ bottom, body^[n] bottom i = f i

/-- What the body gives depends on what it is handed at smaller arguments alone. -/
def Guarded (size : ι → Nat) (body : (∀ i, σ i) → ∀ i, σ i) : Prop :=
  ∀ ⦃f g i⦄, (∀ j, size j < size i → f j = g j) → body f i = body g i

/-- Each result of `f` is what the body makes of results of `f` at smaller arguments alone. -/
def Founded (size : ι → Nat) (body : (∀ i, σ i) → ∀ i, σ i) (f : ∀ i, σ i) : Prop :=
  ∀ ⦃g i⦄, (∀ j, size j < size i → g j = f j) → body g i = f i

variable {size : ι → Nat} {body : (∀ i, σ i) → ∀ i, σ i} {f : ∀ i, σ i}
  {loop : Nat → ∀ i, σ i}

/-- There are enough unfoldings if there are more than the size of the argument. -/
theorem Founded.iterate_eq (h : Founded size body f) (bottom : ∀ i, σ i) {n : Nat} {i : ι}
    (hn : size i < n) : body^[n] bottom i = f i := by
  induction n generalizing i with
  | zero => omega
  | succ n ih =>
    rw [Function.iterate_succ_apply']
    exact h fun j hj => ih (by omega)

theorem Founded.ends (h : Founded size body f) : Ends body f :=
  fun i => ⟨size i + 1, fun bottom => h.iterate_eq bottom (Nat.lt_succ_self _)⟩

/-- A bound above the size of the argument makes no difference to a loop. -/
theorem Guarded.loop_eq (h : Guarded size body) (hloop : ∀ n, loop (n + 1) = body (loop n))
    {m n : Nat} {i : ι} (hm : size i < m) (hn : size i < n) : loop m i = loop n i := by
  induction m generalizing n i with
  | zero => omega
  | succ m ih =>
    obtain ⟨n, rfl⟩ := Nat.exists_eq_add_of_le' (show 1 ≤ n by omega)
    rw [hloop, hloop]
    exact h fun j hj => ih (by omega) (by omega)

theorem Guarded.founded (h : Guarded size body) (loop : Nat → ∀ i, σ i)
    (hloop : ∀ n, loop (n + 1) = body (loop n)) :
    Founded size body fun i => loop (size i + 1) i := by
  intro g i hg
  change body g i = loop (size i + 1) i
  rw [hloop]
  apply h
  intro j hj
  rw [hg j hj]
  exact h.loop_eq hloop (Nat.lt_succ_self _) hj

/-- If the bottom of a loop is right where nothing is left, the size of the argument is enough. -/
theorem Guarded.loop_succ (h : Guarded size body) (hloop : ∀ n, loop (n + 1) = body (loop n))
    (hzero : ∀ i, size i = 0 → loop 1 i = loop 0 i) {n : Nat} {i : ι} (hn : size i ≤ n) :
    loop (n + 1) i = loop n i := by
  induction n generalizing i with
  | zero => exact hzero i (by omega)
  | succ n ih =>
    rw [hloop (n + 1)]
    nth_rewrite 2 [hloop n]
    exact h fun j hj => ih (by omega)

theorem Guarded.founded_of_zero (h : Guarded size body) (loop : Nat → ∀ i, σ i)
    (hloop : ∀ n, loop (n + 1) = body (loop n)) (hzero : ∀ i, size i = 0 → loop 1 i = loop 0 i) :
    Founded size body fun i => loop (size i) i := by
  have heq : (fun i => loop (size i) i) = fun i => loop (size i + 1) i :=
    funext fun i => (h.loop_succ hloop hzero (Nat.le_refl _)).symm
  rw [heq]
  exact h.founded loop hloop

end Recursion

namespace Parser

variable {α β : Type}

/-- The recursive reader with the given body ends with what `m` gives, on every list of tokens. -/
def Ends (body : Parser α → Parser α) (m : Parser α) : Prop :=
  Recursion.Ends (σ := fun _ : Tokens => Except SyntaxError (α × Tokens)) body m

def Guarded (body : Parser α → Parser α) : Prop :=
  Recursion.Guarded (σ := fun _ : Tokens => Except SyntaxError (α × Tokens)) List.length body

theorem bind_congr {m m' : Parser α} {k k' : α → Parser β} {ts : Tokens} (hm : m ts = m' ts)
    (hk : ∀ a rest, m ts = .ok (a, rest) → k a rest = k' a rest) :
    (m >>= k) ts = (m' >>= k') ts := by
  change (m ts >>= fun r => k r.1 r.2) = (m' ts >>= fun r => k' r.1 r.2)
  rw [← hm]
  cases hr : m ts with
  | error e => rfl
  | ok r => exact hk r.1 r.2 hr

theorem Sound.suffix {m : Parser α} {phrase : Tokens → α → Prop} (h : Sound m phrase)
    {ts rest : Tokens} {a : α} (hm : m ts = .ok (a, rest)) : rest <:+ ts := by
  obtain ⟨used, rfl, -⟩ := h hm
  exact List.suffix_append used rest

theorem Sound.length_lt {m : Parser α} {phrase : Tokens → α → Prop} (h : Sound m phrase)
    (hne : ∀ ⦃ts a⦄, phrase ts a → ts ≠ []) {ts rest : Tokens} {a : α}
    (hm : m ts = .ok (a, rest)) : rest.length < ts.length := by
  obtain ⟨used, rfl, hused⟩ := h hm
  have := List.length_pos_iff.2 (hne hused)
  rw [List.length_append]
  omega

theorem SoundStep.length_lt {step : Parser (Option α)} {phrase : Tokens → α → Prop}
    (h : SoundStep step phrase) (hne : ∀ ⦃ts a⦄, phrase ts a → ts ≠ []) {ts rest : Tokens} {a : α}
    (hm : step ts = .ok (some a, rest)) : rest.length < ts.length := by
  obtain ⟨used, rfl, hused⟩ := h hm
  have := List.length_pos_iff.2 (hne hused)
  rw [List.length_append]
  omega

theorem length_dropNewlines_le (ts : Tokens) : (dropNewlines ts).length ≤ ts.length :=
  (List.dropWhile_suffix _).length_le

/-! ## Rounds -/

def manyRound (step : Parser (Option α)) (self : Parser (List α)) : Parser (List α) := do
  match ← step with
  | none => return []
  | some item => return item :: (← self)

def itemsRound (item : Parser α) (closing : Token) (self : Parser (List α)) : Parser (List α) := do
  skipNewlines
  if (← peek) = some closing then
    discard next
    return []
  let first ← item
  skipNewlines
  let (found, p) ← next
  if found = .comma then return first :: (← self)
  else if found = closing then return [first]
  else refuse (some (.commaOr closing)) found p

variable {phrase : Tokens → α → Prop}

theorem manyRound_guarded {step : Parser (Option α)} (h : SoundStep step phrase)
    (hne : ∀ ⦃ts a⦄, phrase ts a → ts ≠ []) : Guarded (manyRound step) := by
  intro f g ts hfg
  refine bind_congr rfl fun r rest hstep => ?_
  cases r with
  | none => rfl
  | some a => exact bind_congr (hfg rest (h.length_lt hne hstep)) fun _ _ _ => rfl

/-- A loop ends if each of its rounds takes a token, and if it stops where no token is left. -/
theorem many_ends {step : Parser (Option α)} (h : SoundStep step phrase)
    (hne : ∀ ⦃ts a⦄, phrase ts a → ts ≠ []) (hnil : step [] = .ok (none, [])) :
    Ends (manyRound step) (many step) := by
  have hloop : ∀ ts : Tokens, ts.length = 0 → repeated step 1 ts = repeated step 0 ts := by
    intro ts hts
    rw [List.length_eq_zero_iff.1 hts]
    exact bind_of_ok hnil
  exact ((manyRound_guarded h hne).founded_of_zero _ (fun _ => rfl) hloop).ends

theorem itemsRound_guarded {item : Parser α} (h : Sound item phrase) (closing : Token) :
    Guarded (itemsRound item closing) := by
  intro f g ts hfg
  rw [itemsRound, itemsRound, skipNewlines_bind, skipNewlines_bind, peek_bind, peek_bind]
  split_ifs
  · rfl
  · refine bind_congr rfl fun a rest hitem => ?_
    rw [skipNewlines_bind, skipNewlines_bind]
    refine bind_congr rfl fun found rest' hnext => ?_
    -- The comma is the token that a round takes, whatever its item takes.
    have hlength : rest'.length < ts.length := by
      have hrest := (h.suffix hitem).length_le
      have hcomma := congrArg List.length (next_eq_ok.1 hnext)
      have := length_dropNewlines_le ts
      have := length_dropNewlines_le rest
      rw [List.length_cons] at hcomma
      omega
    dsimp only
    split_ifs
    · exact bind_congr (hfg rest' hlength) fun _ _ _ => rfl
    · rfl
    · rfl

theorem commaList_ends {item : Parser α} (h : Sound item phrase) (closing : Token) :
    Ends (itemsRound item closing) (commaList item closing) :=
  ((itemsRound_guarded h closing).founded (itemsUntil item closing) fun _ => rfl).ends

end Parser

namespace Grammar

open Scriptlet.Parser Scriptlet.Phrase

/-- Statements up to the end of the tokens or a closing brace, without the node around them. -/
def statementList (expr : Parser Node) : Parser (List Node) := do
  statementsWithin expr ((← get).length + 1)

def furtherBranches (expr : Parser Node) : Parser (List (Node × Node) × Option Node) := do
  alternatives expr (← get).length

def statementsRound (expr : Parser Node) (self : Parser (List Node)) : Parser (List Node) := do
  modify (·.dropWhile (isSeparator ·.1))
  let token ← peek
  if token = none || token = some .rightBrace then return []
  let statement ← expr
  match ← get with
  | [] => return [statement]
  | (t, p) :: _ =>
    if t = .rightBrace || isSeparator t then return statement :: (← self)
    else refuse (some .separator) t p

def alternativesRound (expr : Parser Node) (self : Parser (List (Node × Node) × Option Node)) :
    Parser (List (Node × Node) × Option Node) := do
  if ← elseWord then
    if (← peek) = some .kwIf then
      discard next
      let second ← branch expr
      let (branches, otherwise) ← self
      return (second :: branches, otherwise)
    else return ([], some (← block expr))
  else return ([], none)

variable {expr : Parser Node} {phrase : Tokens → Node → Prop} (h : Sound expr phrase)
  (hopens : ∀ ⦃ts n⦄, phrase ts n → Opens opensExpression ts)

include h hopens

theorem statementsRound_guarded : Parser.Guarded (statementsRound expr) := by
  intro f g ts hfg
  rw [statementsRound, statementsRound, modify_bind, modify_bind, peek_bind, peek_bind]
  split_ifs
  · rfl
  · refine bind_congr rfl fun n rest hexpr => ?_
    have hlength : rest.length < ts.length := by
      have hrest := h.length_lt (fun _ _ hused => (hopens hused).ne_nil) hexpr
      have := (List.dropWhile_suffix (l := ts) (isSeparator ·.1)).length_le
      omega
    rw [get_bind, get_bind]
    cases rest with
    | nil => rfl
    | cons t rest =>
      dsimp only
      split_ifs
      · exact bind_congr (hfg _ hlength) fun _ _ _ => rfl
      · rfl

theorem statementList_ends : Parser.Ends (statementsRound expr) (statementList expr) :=
  ((statementsRound_guarded h hopens).founded (statementsWithin expr) fun _ => rfl).ends

theorem alternativesRound_guarded : Parser.Guarded (alternativesRound expr) := by
  intro f g ts hfg
  refine bind_congr rfl fun found rest helse => ?_
  rcases elseWord_eq_ok helse with ⟨rfl, -⟩ | ⟨rfl, nl, p, -, rfl⟩
  · rfl
  · rw [if_pos rfl, if_pos rfl, peek_bind, peek_bind]
    split_ifs
    · refine bind_congr rfl fun _ rest' hif => ?_
      refine bind_congr rfl fun second rest'' hbranch => ?_
      have hlength : rest''.length < (nl ++ (Token.kwElse, p) :: rest).length := by
        have hrest := ((branch_sound h hopens).suffix hbranch).length_le
        obtain ⟨t, hnext⟩ := discard_eq_ok.1 hif
        have hword := congrArg List.length (next_eq_ok.1 hnext)
        rw [List.length_cons] at hword
        rw [List.length_append, List.length_cons]
        omega
      exact bind_congr (hfg _ hlength) fun _ _ _ => rfl
    · rfl

theorem alternatives_ends : Parser.Ends (alternativesRound expr) (furtherBranches expr) := by
  have hnil : ∀ ts : Tokens, ts.length = 0 → alternatives expr 1 ts = alternatives expr 0 ts := by
    intro ts hts
    rw [List.length_eq_zero_iff.1 hts]
    rfl
  exact ((alternativesRound_guarded h hopens).founded_of_zero _ (fun _ => rfl) hnil).ends

end Grammar
end Scriptlet
