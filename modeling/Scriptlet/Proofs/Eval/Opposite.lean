import Scriptlet.Proofs.Eval.Steps
import Scriptlet.Proofs.Value.Arithmetic
/-!
# Signs in front of products

A minus sign applies to the whole product that follows it, not to its first factor. Main statement:
that makes no difference but for overflows (`Eval.evaluate_minus_product`). The two evaluations go
through the same factors in the same states, with opposite numbers, until one of them overflows; the
least integer has no opposite, so one of them can overflow where the other does not.
-/
namespace Scriptlet

open Arithmetic

def Fault.IsOverflow (fault : Fault) : Prop :=
  ∃ p, fault = .raised .overflow p

/-- Outcomes that differ only if one of them is an overflow: values are related, in the same state,
and one is a fault if the other is. -/
inductive Outcome.Tallies {α β : Type} (R : α → β → Prop) :
    Outcome Fault α → Outcome Fault β → Prop
  | value {a : α} {b : β} (s : State) : R a b → Tallies R (.value a s) (.value b s)
  | failure (fault fault' : Fault) (s s' : State) :
      Tallies R (.failure fault s) (.failure fault' s')
  | timeout : Tallies R .timeout .timeout
  | overflow_left {fault : Fault} (s : State) (outcome : Outcome Fault β) : fault.IsOverflow →
      Tallies R (.failure fault s) outcome
  | overflow_right {fault : Fault} (outcome : Outcome Fault α) (s : State) : fault.IsOverflow →
      Tallies R outcome (.failure fault s)

namespace Outcome.Tallies

variable {α β : Type} {R : α → β → Prop} {fault : Fault} {s : State}

theorem left_overflow {outcome : Outcome Fault β} (h : Tallies R (.failure fault s) outcome)
    (hnot : ∀ fault' t, outcome ≠ .failure fault' t) : fault.IsOverflow := by
  cases h with
  | failure _ fault' _ t => exact absurd rfl (hnot fault' t)
  | overflow_left _ _ hoverflow => exact hoverflow
  | overflow_right _ t _ => exact absurd rfl (hnot _ t)

theorem right_overflow {outcome : Outcome Fault α} (h : Tallies R outcome (.failure fault s))
    (hnot : ∀ fault' t, outcome ≠ .failure fault' t) : fault.IsOverflow := by
  cases h with
  | failure fault' _ t _ => exact absurd rfl (hnot fault' t)
  | overflow_left t _ _ => exact absurd rfl (hnot _ t)
  | overflow_right _ _ hoverflow => exact hoverflow

end Outcome.Tallies

namespace Eval

variable {α β γ δ : Type} {s : State}

section Tallies

variable {R : α → β → Prop} {Q : γ → δ → Prop}

theorem tallies_refl (outcome : Outcome Fault α) : outcome.Tallies Eq outcome := by
  cases outcome with
  | value a s => exact .value s rfl
  | failure fault s => exact .failure fault fault s s
  | timeout => exact .timeout

theorem tallies_bind {m : Eval α} {m' : Eval β} {f : α → Eval γ} {f' : β → Eval δ}
    (hm : (m s).Tallies R (m' s)) (hf : ∀ a b t, R a b → (f a t).Tallies Q (f' b t)) :
    ((m >>= f) s).Tallies Q ((m' >>= f') s) := by
  rw [bind_apply, bind_apply]
  generalize m s = outcome, m' s = outcome' at hm ⊢
  cases hm with
  | value t hab => exact hf _ _ t hab
  | failure fault fault' t t' => exact .failure fault fault' t t'
  | timeout => exact .timeout
  | overflow_left t _ h => exact .overflow_left t _ h
  | overflow_right _ t h => exact .overflow_right _ t h

theorem tallies_same_bind {m : Eval α} {f : α → Eval γ} {f' : α → Eval δ}
    (hf : ∀ a t, (f a t).Tallies Q (f' a t)) : ((m >>= f) s).Tallies Q ((m >>= f') s) := by
  refine tallies_bind (tallies_refl (m s)) ?_
  rintro a _ t rfl
  exact hf a t

end Tallies

/-! ## Opposite factors -/

def IsOpposite (a b : Int64) : Prop :=
  b.toInt = -a.toInt

theorem exact_opposite {op : ArithmeticOperator} (hop : op ∈ [.multiply, .divide, .remainder])
    (a b : Int) : exact op (-a) b = -exact op a b := by
  simp only [List.mem_cons, List.not_mem_nil, or_false] at hop
  rcases hop with rfl | rfl | rfl
  · exact Int.neg_mul a b
  · exact Int.neg_tdiv a b
  · exact Int.neg_tmod a b

theorem apply_tallies {op : ArithmeticOperator} (hop : op ∈ [.multiply, .divide, .remainder])
    {a a' : Int64} (ha : IsOpposite a a') (b : Int64) (p : Position) :
    (lift (Arithmetic.apply op a b p) s).Tallies IsOpposite
      (lift (Arithmetic.apply op a' b p) s) := by
  by_cases hzero : divides op ∧ b = 0
  · obtain ⟨hdivides, rfl⟩ := hzero
    rw [apply_of_zero hdivides, apply_of_zero hdivides]
    exact .failure _ _ s s
  cases hr : Arithmetic.apply op a b p with
  | error fault => exact .overflow_left s _ ⟨p, (apply_eq_error hr).resolve_left hzero⟩
  | ok n =>
    cases hr' : Arithmetic.apply op a' b p with
    | error fault => exact .overflow_right _ s ⟨p, (apply_eq_error hr').resolve_left hzero⟩
    | ok n' =>
      refine .value s ?_
      rw [IsOpposite, (apply_eq_ok_iff.1 hr').2.2, (apply_eq_ok_iff.1 hr).2.2, ha,
        exact_opposite hop]

section Products

variable {evaluate : Node → FrameRef → Eval Value} {e : FrameRef}

/-- The induction is on the factors. Both folds evaluate the next factor in the same state. -/
theorem fold_tallies {rest : List (ArithmeticOperator × Node)}
    (hrest : ∀ operand ∈ rest, operand.1 ∈ [.multiply, .divide, .remainder]) {a a' : Int64}
    (ha : IsOpposite a a') (s : State) :
    (fold evaluate e a rest s).Tallies IsOpposite (fold evaluate e a' rest s) := by
  induction rest generalizing a a' s with
  | nil => exact .value s ha
  | cons operand rest ih =>
    obtain ⟨op, node⟩ := operand
    rw [List.forall_mem_cons] at hrest
    refine tallies_same_bind fun v t => tallies_same_bind fun b t => ?_
    exact tallies_bind (apply_tallies hrest.1 ha b node.position) fun n n' t hn => ih hrest.2 hn t

/-! ## Opposite products -/

/-- The opposite of a product, with the parts evaluated as given. -/
def minusProduct (evaluate : Node → FrameRef → Eval Value) (e : FrameRef) (first : Node)
    (rest : List (ArithmeticOperator × Node)) (p : Position) : Eval Value := do
  let v ← evaluate first e
  let n ← fold evaluate e (← v.toInteger first.position) rest
  applyUnary .minus (.integer n) p

/-- The product of the opposite of a first factor with others, with the parts evaluated as given. -/
def productOfMinus (evaluate evaluate' : Node → FrameRef → Eval Value) (e : FrameRef) (first : Node)
    (rest : List (ArithmeticOperator × Node)) (p : Position) : Eval Value := do
  let v ← evaluate first e
  let w ← applyUnary .minus v p
  return .integer (← fold evaluate' e (← w.toInteger p) rest)

def AreInteger (v v' : Value) : Prop :=
  ∃ n, v = .integer n ∧ v' = .integer n

/-- The first factor has no opposite that is an integer, or the two products are folds over the same
factors. The opposite of the one product is there as soon as the other one is. -/
theorem minusProduct_tallies {rest : List (ArithmeticOperator × Node)}
    (hrest : ∀ operand ∈ rest, operand.1 ∈ [.multiply, .divide, .remainder]) (first : Node)
    (p p' : Position) (s : State) :
    (minusProduct evaluate e first rest p s).Tallies AreInteger
      (productOfMinus evaluate evaluate e first rest p' s) := by
  refine tallies_same_bind fun v t => ?_
  cases v with
  | integer a =>
    rw [applyUnary_minus_integer]
    cases ha : fit? (-a.toInt) with
    | none => exact .overflow_right _ t ⟨p', rfl⟩
    | some a' =>
      change Outcome.Tallies AreInteger
        ((fold evaluate e a rest >>= fun n => lift (applyUnary .minus (.integer n) p)) t)
        ((fold evaluate e a' rest >>= fun n => pure (.integer n)) t)
      refine tallies_bind (fold_tallies hrest (fit?_eq_some_iff.1 ha) t) fun n n' u hn => ?_
      rw [applyUnary_minus_integer, fit?_eq_some_iff.2 hn]
      exact .value u ⟨n', rfl, rfl⟩
  | _ => exact .failure _ _ t t

end Products

/-! ## Trees -/

section Trees

variable {settings : Settings} {e : FrameRef} {first : Node}
  {rest : List (ArithmeticOperator × Node)} {p q : Position}

theorem evaluate_minus_arithmetic (n : Nat) :
    evaluate settings (n + 2) ⟨.unary .minus ⟨.arithmetic first rest, q⟩, p⟩ e =
      minusProduct (evaluate settings n) e first rest p := by
  simp only [evaluate, step, minusProduct, bind_assoc, pure_bind]

theorem evaluate_arithmetic_minus (n : Nat) :
    evaluate settings (n + 2) ⟨.arithmetic ⟨.unary .minus first, p⟩ rest, q⟩ e =
      productOfMinus (evaluate settings n) (evaluate settings (n + 1)) e first rest p := by
  rw [evaluate, step]
  simp only [productOfMinus]
  rw [evaluate, step]
  simp only [bind_assoc]

theorem productOfMinus_outlasts {n n' k k' : Nat} (hn : n ≤ n') (hk : k ≤ k') :
    Outlasts (productOfMinus (evaluate settings n') (evaluate settings k') e first rest p)
      (productOfMinus (evaluate settings n) (evaluate settings k) e first rest p) := by
  refine .bind (evaluate_outlasts settings hn first e) fun _ => .bind (.refl _) fun _ => ?_
  refine .bind (.refl _) fun a => .bind (fold_outlasts ?_ a rest) fun _ => .refl _
  exact evaluate_outlasts settings hk

/-- What the evaluation with more steps tallies with lies between two evaluations of the other
tree. -/
theorem evaluate_tallies {p' q' : Position}
    (hrest : ∀ operand ∈ rest, operand.1 ∈ [.multiply, .divide, .remainder]) (s : State) (n : Nat) :
    ∃ m : Eval Value,
      (evaluate settings (n + 3) ⟨.unary .minus ⟨.arithmetic first rest, q⟩, p⟩ e s).Tallies
        AreInteger (m s) ∧
      Outlasts m (evaluate settings n ⟨.arithmetic ⟨.unary .minus first, p'⟩ rest, q'⟩ e) ∧
      Outlasts (evaluate settings (n + 3) ⟨.arithmetic ⟨.unary .minus first, p'⟩ rest, q'⟩ e)
        m := by
  refine ⟨productOfMinus (evaluate settings (n + 1)) (evaluate settings (n + 1)) e first rest p',
    ?_, ?_, ?_⟩
  · rw [evaluate_minus_arithmetic]
    exact minusProduct_tallies hrest first p p' s
  · refine (evaluate_outlasts settings (Nat.le_add_right n 2) _ e).trans ?_
    rw [evaluate_arithmetic_minus]
    exact productOfMinus_outlasts (Nat.le_succ n) (Nat.le_refl _)
  · rw [evaluate_arithmetic_minus]
    exact productOfMinus_outlasts (Nat.le_refl _) (Nat.le_succ _)

end Trees

/-- A minus sign in front of a product, and one in front of its first factor. If both trees have a
value, then it is the same integer, and the same state is left, its output and events included. If
only one of the evaluations fails, whether the other gives a value or goes on for ever, then the
fault is an overflow. -/
theorem evaluate_minus_product (settings : Settings) (e : FrameRef) (s : State) (first : Node)
    (rest : List (ArithmeticOperator × Node)) (p q p' q' : Position)
    (hrest : ∀ operand ∈ rest, operand.1 ∈ [.multiply, .divide, .remainder]) :
    let minusOfProduct : Node := ⟨.unary .minus ⟨.arithmetic first rest, q⟩, p⟩
    let minusOfFirst : Node := ⟨.arithmetic ⟨.unary .minus first, p'⟩ rest, q'⟩
    (∀ n n' v v' t t', evaluate settings n minusOfProduct e s = .value v t →
      evaluate settings n' minusOfFirst e s = .value v' t' →
      (∃ m, v = .integer m) ∧ v' = v ∧ t' = t) ∧
    (∀ n fault t, evaluate settings n minusOfProduct e s = .failure fault t →
      (∀ n' fault' t', evaluate settings n' minusOfFirst e s ≠ .failure fault' t') →
      fault.IsOverflow) ∧
    ∀ n fault t, evaluate settings n minusOfFirst e s = .failure fault t →
      (∀ n' fault' t', evaluate settings n' minusOfProduct e s ≠ .failure fault' t') →
      fault.IsOverflow := by
  intro minusOfProduct minusOfFirst
  have htallies (n : Nat) : ∃ m : Eval Value,
      (evaluate settings (n + 3) minusOfProduct e s).Tallies AreInteger (m s) ∧
      Outlasts m (evaluate settings n minusOfFirst e) ∧
      Outlasts (evaluate settings (n + 3) minusOfFirst e) m :=
    evaluate_tallies hrest s n
  have hmore {n k : Nat} (h : n ≤ k) (node : Node) := evaluate_outlasts settings h node e
  refine ⟨fun n n' v v' t t' h h' => ?_, fun n fault t h hnot => ?_, fun n fault t h hnot => ?_⟩
  · obtain ⟨m, htally, hm, -⟩ := htallies (max n n')
    rw [(hmore (by omega) _).value h,
      hm.value ((hmore (Nat.le_max_right n n') _).value h')] at htally
    cases htally with
    | value _ hinteger =>
      obtain ⟨k, rfl, rfl⟩ := hinteger
      exact ⟨⟨k, rfl⟩, rfl, rfl⟩
  · obtain ⟨m, htally, -, hm⟩ := htallies n
    rw [(hmore (by omega) _).failure h] at htally
    exact htally.left_overflow fun fault' t' hfails => hnot _ _ _ (hm.failure hfails)
  · obtain ⟨m, htally, hm, -⟩ := htallies n
    rw [hm.failure h] at htally
    exact htally.right_overflow fun fault' t' hfails => hnot _ _ _ hfails

/-- Minus seven times two over three, where the two is assigned on the way; and minus the least
integer over two, where only the sign in front of the first factor overflows. -/
theorem evaluate_minus_product_assignedFactor :
    let frame : State := { store := { frames := #[{}] } }
    let number (digits : String) : Node := ⟨.number digits, .start⟩
    let minus (operand : Node) : Node := ⟨.unary .minus operand, .start⟩
    let arithmetic (first : Node) (rest : List (ArithmeticOperator × Node)) : Node :=
      ⟨.arithmetic first rest, .start⟩
    let factors : List (ArithmeticOperator × Node) :=
      [(.multiply, ⟨.assignment true "x" (number "2"), .start⟩), (.divide, number "3")]
    let least := arithmetic (minus (number "9223372036854775807")) [(.subtract, number "1")]
    let half : List (ArithmeticOperator × Node) := [(.divide, number "2")]
    (∀ operand ∈ factors ++ half, operand.1 ∈ [.multiply, .divide, .remainder]) ∧
      (∃ t, evaluate {} 5 (minus (arithmetic (number "7") factors)) ⟨0⟩ frame =
          .value (.integer (-4)) t ∧
        evaluate {} 5 (arithmetic (minus (number "7")) factors) ⟨0⟩ frame =
          .value (.integer (-4)) t) ∧
      ∃ v fault t t', evaluate {} 6 (minus (arithmetic least half)) ⟨0⟩ frame = .value v t ∧
        evaluate {} 6 (arithmetic (minus least) half) ⟨0⟩ frame = .failure fault t' ∧
        fault.IsOverflow := by
  intro frame number minus arithmetic factors least half
  have hall : ∀ operand ∈ factors ++ half,
      operand.1 ∈ [ArithmeticOperator.multiply, .divide, .remainder] := by decide
  rw [List.forall_mem_append] at hall
  refine ⟨List.forall_mem_append.2 hall, ?_, ?_⟩
  · obtain ⟨t, ht⟩ : ∃ t, evaluate {} 5 (minus (arithmetic (number "7") factors)) ⟨0⟩ frame =
        .value (.integer (-4)) t := ⟨_, rfl⟩
    obtain ⟨v, t', ht'⟩ : ∃ v t', evaluate {} 5 (arithmetic (minus (number "7")) factors) ⟨0⟩
        frame = .value v t' := ⟨_, _, rfl⟩
    obtain ⟨-, rfl, rfl⟩ := (evaluate_minus_product {} ⟨0⟩ frame (number "7") factors .start .start
      .start .start hall.1).1 5 5 _ _ _ _ ht ht'
    exact ⟨t', ht, ht'⟩
  · obtain ⟨v, t, ht⟩ : ∃ v t, evaluate {} 6 (minus (arithmetic least half)) ⟨0⟩ frame =
        .value v t := ⟨_, _, rfl⟩
    obtain ⟨fault, t', ht'⟩ : ∃ fault t', evaluate {} 6 (arithmetic (minus least) half) ⟨0⟩ frame =
        .failure fault t' := ⟨_, _, rfl⟩
    refine ⟨v, fault, t, t', ht, ht', ?_⟩
    refine (evaluate_minus_product {} ⟨0⟩ frame least half .start .start .start .start hall.2).2.2 6
      fault t' ht' fun n fault' u hfails => ?_
    have hunique := evaluate_unique (n := 6) (by rw [ht]; simp) (by rw [hfails]; simp)
    rw [ht, hfails] at hunique
    cases hunique

end Eval
end Scriptlet
