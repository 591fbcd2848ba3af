import Scriptlet.Proofs.Syntax.Phrase
/-!
# Reading tokens

What the readers of tokens do, as equations on the list of tokens that is left. A reader is compared
with the phrases of the grammar in two directions, which both start from here.
-/
namespace Scriptlet.Parser

variable {α β : Type}

theorem bind_eq_ok {m : Parser α} {f : α → Parser β} {ts rest : Tokens} {b : β} :
    (m >>= f) ts = .ok (b, rest) ↔
      ∃ a mid, m ts = .ok (a, mid) ∧ f a mid = .ok (b, rest) := by
  change (m ts >>= fun r => f r.1 r.2) = _ ↔ _
  cases m ts with
  | error e => simp [bind, Except.bind]
  | ok r =>
    obtain ⟨a, mid⟩ := r
    simp [bind, Except.bind]

theorem bind_of_ok {m : Parser α} {f : α → Parser β} {ts mid : Tokens} {a : α}
    (h : m ts = .ok (a, mid)) : (m >>= f) ts = f a mid := by
  change (m ts >>= fun r => f r.1 r.2) = _
  rw [h]
  rfl

theorem discard_eq_ok {m : Parser α} {ts rest : Tokens} {u : Unit} :
    (discard m : Parser Unit) ts = .ok (u, rest) ↔ ∃ a, m ts = .ok (a, rest) := by
  change (m ts >>= fun r => Except.ok ((), r.2)) = _ ↔ _
  cases m ts with
  | error e => simp [bind, Except.bind]
  | ok r => simp [bind, Except.bind, Prod.ext_iff]

theorem pure_eq_ok {a b : α} {ts rest : Tokens} :
    (pure a : Parser α) ts = .ok (b, rest) ↔ a = b ∧ ts = rest := by
  change Except.ok (a, ts) = _ ↔ _
  simp

theorem lift_eq_ok {m : Except SyntaxError α} {ts rest : Tokens} {a : α} :
    (liftM m : Parser α) ts = .ok (a, rest) ↔ m = .ok a ∧ ts = rest := by
  change (m >>= fun a => Except.ok (a, ts)) = _ ↔ _
  cases m with
  | error e => simp [bind, Except.bind]
  | ok b => simp [bind, Except.bind]

theorem get_bind (f : Tokens → Parser β) (ts : Tokens) : (get >>= f) ts = f ts ts := rfl

theorem set_bind (rest : Tokens) (f : PUnit → Parser β) (ts : Tokens) :
    (set rest >>= f) ts = f ⟨⟩ rest := rfl

theorem modify_bind (change : Tokens → Tokens) (f : PUnit → Parser β) (ts : Tokens) :
    (modify change >>= f) ts = f ⟨⟩ (change ts) := rfl

theorem peek_bind (f : Option Token → Parser β) (ts : Tokens) :
    (peek >>= f) ts = f (ts.head?.map (·.1)) ts := rfl

theorem skipNewlines_bind (f : Unit → Parser β) (ts : Tokens) :
    (skipNewlines >>= f) ts = f () (dropNewlines ts) := rfl

theorem next_eq_ok {ts rest : Tokens} {t : Token × Position} :
    next ts = .ok (t, rest) ↔ ts = t :: rest := by
  cases ts with
  | nil =>
    change Except.error _ = _ ↔ _
    simp
  | cons u us =>
    change Except.ok (u, us) = _ ↔ _
    simp

theorem expect_eq_ok {token : Token} {expected : Expectation} {ts rest : Tokens} {p : Position} :
    expect token expected ts = .ok (p, rest) ↔ ts = (token, p) :: rest := by
  unfold expect
  rw [bind_eq_ok]
  constructor
  · rintro ⟨⟨found, q⟩, mid, hn, h⟩
    rw [next_eq_ok] at hn
    dsimp only at h
    split at h
    · next heq =>
      obtain ⟨rfl, rfl⟩ := pure_eq_ok.1 h
      rw [hn, heq]
    · cases h
  · intro h
    refine ⟨(token, p), rest, next_eq_ok.2 h, ?_⟩
    dsimp only
    rw [if_pos rfl]
    rfl

theorem identifier_eq_ok {ts rest : Tokens} {name : String} :
    identifier ts = .ok (name, rest) ↔ ∃ p, ts = (.identifier name, p) :: rest := by
  unfold identifier
  rw [bind_eq_ok]
  constructor
  · rintro ⟨⟨found, q⟩, mid, hn, h⟩
    rw [next_eq_ok] at hn
    cases found
    case identifier =>
      obtain ⟨rfl, rfl⟩ := pure_eq_ok.1 h
      exact ⟨q, hn⟩
    all_goals cases h
  · rintro ⟨p, h⟩
    exact ⟨_, rest, next_eq_ok.2 h, pure_eq_ok.2 ⟨rfl, rfl⟩⟩

end Scriptlet.Parser
