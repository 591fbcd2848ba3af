import Mathlib.Data.Nat.Digits.Defs
import Scriptlet.Proofs.Eval.Steps
import Scriptlet.Proofs.Token.Rendering
import Scriptlet.Proofs.Value.Arithmetic
/-!
# Calculations

A calculation is a tree of numbers, with signs in front of operands and operators between them. It
has a value over the unbounded integers, and workings on the way to that value. Main statement: the
evaluation of a calculation gives that value, and it gives one exactly if all workings can be done
with 64-bit integers (`Eval.evaluate_calculation`).
-/
namespace Scriptlet

namespace Arithmetic

/-- The number that decimal digits stand for: each counts ten times as much as the next. -/
def placeValue (digits : List Char) : Nat :=
  Nat.ofDigits 10 (digits.reverse.map fun c => c.toNat - '0'.toNat)

theorem decimal_eq_placeValue (digits : List Char) : decimal digits = placeValue digits := by
  rw [decimal, placeValue, Nat.ofDigits_eq_foldr, List.foldr_map, List.foldr_reverse]
  simp only [Nat.cast_id, Nat.add_comm]

theorem literal?_eq_some_iff {digits : String} (h : (Token.number digits).WellFormed) {n : Int64} :
    literal? digits = some n ↔ n.toInt = placeValue digits.toList := by
  obtain ⟨c, cs, hdigits, hc, hcs⟩ : ∃ c cs, digits.toList = c :: cs ∧ Lexeme.isDecimal c ∧
      ∀ d ∈ cs, Lexeme.isDecimal d := by
    obtain ⟨_, ⟨c, hc, rfl⟩, cs, hcs, heq⟩ := Language.mem_mul.1 h
    exact ⟨c, cs, heq.symm, hc, Pattern.mem_kstar_one.1 hcs⟩
  have hne : digits.isEmpty = false := by
    rw [← Bool.not_eq_true, String.isEmpty_iff, ← String.toList_eq_nil_iff, hdigits]
    exact List.cons_ne_nil _ _
  have hall : digits.toList.all (fun c => '0' ≤ c && c ≤ '9') = true := by
    rw [hdigits, List.all_eq_true]
    exact List.forall_mem_cons.2 ⟨hc, hcs⟩
  rw [literal?, hne, hall, Bool.not_false, Bool.and_true, if_pos rfl, fit?_eq_some_iff,
    decimal_eq_placeValue]

theorem literal?_eq_none_iff {digits : String} (h : (Token.number digits).WellFormed) :
    literal? digits = none ↔ Int64.maxValue.toInt < placeValue digits.toList := by
  have hmax : Int64.maxValue.toInt = 0x7fffffffffffffff := rfl
  cases hn : literal? digits with
  | some n =>
    have hexact := (literal?_eq_some_iff h).1 hn
    refine iff_of_false (fun hnone => by cases hnone) ?_
    rw [← hexact, not_lt]
    exact Int64.le_iff_toInt_le.1 n.le_maxValue
  | none =>
    refine iff_of_true rfl ?_
    by_contra hle
    have hfits : Arithmetic.Fits (placeValue digits.toList) := by
      rw [hmax] at hle
      constructor <;> omega
    obtain ⟨n, -, hexact⟩ := fit?_of_fits hfits
    rw [(literal?_eq_some_iff h).2 hexact] at hn
    cases hn

/-- One thing that is worked out on the way to the value of a calculation. -/
inductive Working where
  | literal (n : Nat)
  | opposite (n : Int)
  | operation (op : ArithmeticOperator) (a b : Int)
deriving DecidableEq

namespace Working

def result : Working → Int
  | literal n => n
  | opposite n => -n
  | operation op a b => exact op a b

def DividesByZero : Working → Prop
  | operation op _ b => divides op ∧ b = 0
  | _ => False

/-- The remainder of the least integer by minus one, whose quotient does not fit. -/
def LacksQuotient : Working → Prop
  | operation op a b => op = .remainder ∧ a = Int64.minValue.toInt ∧ b = -1
  | _ => False

/-- What can be worked out with 64-bit integers. -/
structure Feasible (w : Working) : Prop where
  fits : Arithmetic.Fits w.result
  divisor : ¬ w.DividesByZero
  quotient : ¬ w.LacksQuotient

end Working
end Arithmetic

open Arithmetic

/-! ## Exact values -/

/-- Trees of numbers, with `+` and `-` in front and any of the five operators between. -/
inductive Node.IsCalculation : Node → Prop
  | number {digits : String} {p : Position} : (Token.number digits).WellFormed →
      IsCalculation ⟨.number digits, p⟩
  | plus {operand : Node} {p : Position} : IsCalculation operand →
      IsCalculation ⟨.unary .plus operand, p⟩
  | minus {operand : Node} {p : Position} : IsCalculation operand →
      IsCalculation ⟨.unary .minus operand, p⟩
  | arithmetic {first : Node} {rest : List (ArithmeticOperator × Node)} {p : Position} :
      IsCalculation first → (∀ operand ∈ rest, IsCalculation operand.2) →
      IsCalculation ⟨.arithmetic first rest, p⟩

mutual

/-- The value of a calculation over the unbounded integers. -/
def Node.exact : Node → Int
  | ⟨kind, _⟩ => kind.exact

def NodeKind.exact : NodeKind → Int
  | .number digits => placeValue digits.toList
  | .unary .minus operand => -operand.exact
  | .unary _ operand => operand.exact
  | .arithmetic first rest => foldExact first.exact rest
  | _ => 0

def foldExact : Int → List (ArithmeticOperator × Node) → Int
  | a, [] => a
  | a, (op, node) :: rest => foldExact (Arithmetic.exact op a node.exact) rest

end

mutual

/-- All that is worked out for the value of a calculation, in order. -/
def Node.workings : Node → List Working
  | ⟨kind, _⟩ => kind.workings

def NodeKind.workings : NodeKind → List Working
  | .number digits => [.literal (placeValue digits.toList)]
  | .unary .minus operand => operand.workings ++ [.opposite operand.exact]
  | .unary _ operand => operand.workings
  | .arithmetic first rest => first.workings ++ foldWorkings first.exact rest
  | _ => []

def foldWorkings : Int → List (ArithmeticOperator × Node) → List Working
  | _, [] => []
  | a, (op, node) :: rest =>
    node.workings ++ .operation op a node.exact ::
      foldWorkings (Arithmetic.exact op a node.exact) rest

end

/-! ## Checked values -/

namespace Eval

variable {α β : Type}

/-- A computation that changes nothing gives a value exactly if `good` holds, and one of which `P`
holds. -/
structure Yields (s : State) (good : Prop) (P : α → Prop) (m : Nat → Eval α) : Prop where
  ends : good → ∃ a, P a ∧ Ends m s a s
  value : ∀ {steps a t}, m steps s = .value a t → t = s ∧ P a ∧ good

section Yields

variable {s : State} {good good' : Prop} {P : α → Prop} {Q : β → Prop}

theorem Yields.pure {a : α} (h : P a) : Yields s True P fun _ => Pure.pure a where
  ends _ := ⟨a, h, .of_eq fun _ => rfl⟩
  value := by
    rintro _ _ _ ⟨⟩
    exact ⟨rfl, h, trivial⟩

theorem Yields.lift {x : Except Fault α} (hends : good → ∃ a, x = .ok a)
    (hvalue : ∀ a, x = .ok a → P a ∧ good) : Yields s good P fun _ => lift x where
  ends hgood := by
    obtain ⟨a, rfl⟩ := hends hgood
    exact ⟨a, (hvalue a rfl).1, .of_eq fun _ => rfl⟩
  value := by
    intro _ a t h
    cases x with
    | ok b =>
      cases h
      exact ⟨rfl, hvalue _ rfl⟩
    | error fault => cases h

theorem Yields.bind {m : Nat → Eval α} {f : Nat → α → Eval β} (hm : Yields s good P m)
    (hf : ∀ a, P a → Yields s good' Q fun steps => f steps a) :
    Yields s (good ∧ good') Q fun steps => m steps >>= f steps where
  ends h := by
    obtain ⟨a, ha, hma⟩ := hm.ends h.1
    obtain ⟨b, hb, hfb⟩ := (hf a ha).ends h.2
    exact ⟨b, hb, hma.bind hfb⟩
  value := by
    intro steps b t h
    rw [bind_apply] at h
    split at h
    · next a u hma =>
      obtain ⟨rfl, ha, hgood⟩ := hm.value hma
      obtain ⟨ht, hb, hgood'⟩ := (hf a ha).value h
      exact ⟨ht, hb, hgood, hgood'⟩
    · cases h
    · cases h

theorem Yields.congr {m : Nat → Eval α} (h : Yields s good P m) (hgood : good ↔ good') :
    Yields s good' P m :=
  propext hgood ▸ h

theorem Yields.of_step {settings : Settings} {node : Node} {e : FrameRef} {P : Value → Prop}
    (h : Yields s good P fun steps => step (invoke settings (evaluate settings steps))
      (evaluate settings steps) steps node e) :
    Yields s good P fun steps => evaluate settings steps node e where
  ends hgood := by
    obtain ⟨v, hv, hends⟩ := h.ends hgood
    exact ⟨v, hv, hends.of_step⟩
  value := by
    intro steps v t hv
    cases steps with
    | zero => cases hv
    | succ steps => exact h.value hv

end Yields

section Calculation

variable {settings : Settings} {e : FrameRef} {s : State} {node : Node}

def IsInteger (n : Int) (v : Value) : Prop :=
  ∃ m : Int64, v = .integer m ∧ m.toInt = n

/-- The evaluation of a calculation yields its exact value. -/
def Calculates (settings : Settings) (e : FrameRef) (s : State) (node : Node) : Prop :=
  Yields s (∀ w ∈ node.workings, w.Feasible) (IsInteger node.exact) fun steps =>
    evaluate settings steps node e

theorem toInteger_yields {n : Int} {v : Value} (hv : IsInteger n v) (p : Position) :
    Yields s True (fun m : Int64 => m.toInt = n) fun _ => lift (v.toInteger p) := by
  obtain ⟨m, rfl, hm⟩ := hv
  exact .pure hm

theorem number_calculates {digits : String} (h : (Token.number digits).WellFormed) (p : Position) :
    Calculates settings e s ⟨.number digits, p⟩ := by
  apply Yields.of_step
  simp only [step]
  cases hn : literal? digits with
  | some n =>
    have hexact := (literal?_eq_some_iff h).1 hn
    refine .congr (.pure ⟨n, rfl, hexact⟩) (iff_of_true trivial ?_)
    refine List.forall_mem_singleton.2 ⟨?_, id, id⟩
    rw [Working.result, ← hexact]
    exact fits_toInt n
  | none =>
    refine ⟨fun hfeasible => ?_, fun hvalue => by cases hvalue⟩
    obtain ⟨n, -, hexact⟩ := fit?_of_fits (List.forall_mem_singleton.1 hfeasible).fits
    rw [(literal?_eq_some_iff h).2 hexact] at hn
    cases hn

theorem plus_calculates {operand : Node} (h : Calculates settings e s operand) (p : Position) :
    Calculates settings e s ⟨.unary .plus operand, p⟩ :=
  .of_step ((h.bind fun _ hv => .pure hv).congr (and_iff_left trivial))

theorem applyUnary_minus_eq_ok {m : Int64} {v : Value} {p : Position} :
    Arithmetic.applyUnary .minus (.integer m) p = .ok v ↔ IsInteger (-m.toInt) v := by
  have hfit (n : Int64) : fit? (-m.toInt) = some n ↔ n.toInt = -m.toInt := fit?_eq_some_iff
  rw [applyUnary_minus_integer, IsInteger]
  simp only [← hfit]
  cases fit? (-m.toInt) <;> simp [eq_comm]

theorem minus_calculates {operand : Node} (h : Calculates settings e s operand) (p : Position) :
    Calculates settings e s ⟨.unary .minus operand, p⟩ := by
  have hgood : (∀ w ∈ (Node.mk (.unary .minus operand) p).workings, w.Feasible) ↔
      (∀ w ∈ operand.workings, w.Feasible) ∧ (Working.opposite operand.exact).Feasible := by
    rw [Node.workings, NodeKind.workings, List.forall_mem_append, List.forall_mem_singleton]
  refine Yields.of_step (.congr (h.bind fun v hv => ?_) hgood.symm)
  obtain ⟨m, rfl, hm⟩ := hv
  refine .lift (fun hfeasible => ?_) fun v hv => ?_
  · obtain ⟨n, -, hexact⟩ := fit?_of_fits hfeasible.fits
    rw [Working.result, ← hm] at hexact
    exact ⟨.integer n, applyUnary_minus_eq_ok.2 ⟨n, rfl, hexact⟩⟩
  · obtain ⟨n, rfl, hexact⟩ := applyUnary_minus_eq_ok.1 hv
    rw [hm] at hexact
    refine ⟨⟨n, rfl, hexact⟩, ?_, id, id⟩
    rw [Working.result, ← hexact]
    exact fits_toInt n

theorem apply_yields (op : ArithmeticOperator) (a b : Int64) (p : Position) :
    Yields s (Working.operation op a.toInt b.toInt).Feasible
      (fun n : Int64 => n.toInt = Arithmetic.exact op a.toInt b.toInt)
      fun _ => lift (Arithmetic.apply op a b p) := by
  have hzero : b.toInt = 0 ↔ b = 0 := by
    rw [← Int64.toInt_inj]
    rfl
  have hlacks : (Working.operation op a.toInt b.toInt).LacksQuotient ↔ LacksQuotient op a b := by
    rw [Working.LacksQuotient, LacksQuotient, Int64.toInt_inj, toInt_eq_neg_one]
  refine .lift (fun hfeasible => ?_) fun n hn => ?_
  · obtain ⟨n, -, hexact⟩ := fit?_of_fits hfeasible.fits
    refine ⟨n, apply_eq_ok_iff.2 ⟨fun h => hfeasible.divisor ?_, ?_, hexact⟩⟩
    · exact ⟨h.1, hzero.2 h.2⟩
    · exact fun h => hfeasible.quotient (hlacks.2 h)
  · obtain ⟨hdivisor, hquotient, hexact⟩ := apply_eq_ok_iff.1 hn
    refine ⟨hexact, ?_, fun h => hdivisor ⟨h.1, hzero.1 h.2⟩, fun h => hquotient (hlacks.1 h)⟩
    rw [Working.result, ← hexact]
    exact fits_toInt n

theorem fold_yields {rest : List (ArithmeticOperator × Node)}
    (h : ∀ operand ∈ rest, Calculates settings e s operand.2) (a : Int64) :
    Yields s (∀ w ∈ foldWorkings a.toInt rest, w.Feasible)
      (fun n : Int64 => n.toInt = foldExact a.toInt rest)
      fun steps => fold (evaluate settings steps) e a rest := by
  induction rest generalizing a with
  | nil => exact .congr (.pure rfl) (by simp [foldWorkings])
  | cons operand rest ih =>
    obtain ⟨op, node⟩ := operand
    rw [List.forall_mem_cons] at h
    have hgood : (∀ w ∈ foldWorkings a.toInt ((op, node) :: rest), w.Feasible) ↔
        (∀ w ∈ node.workings, w.Feasible) ∧ True ∧
          (Working.operation op a.toInt node.exact).Feasible ∧
          ∀ w ∈ foldWorkings (Arithmetic.exact op a.toInt node.exact) rest, w.Feasible := by
      rw [foldWorkings, List.forall_mem_append, List.forall_mem_cons, true_and]
    refine .congr (h.1.bind fun v hv => ?_) hgood.symm
    refine (toInteger_yields hv node.position).bind fun m hm => ?_
    rw [foldExact, ← hm]
    refine (apply_yields op a m node.position).bind fun n hn => ?_
    rw [← hn]
    exact ih h.2 n

theorem arithmetic_calculates {first : Node} {rest : List (ArithmeticOperator × Node)}
    (hfirst : Calculates settings e s first)
    (hrest : ∀ operand ∈ rest, Calculates settings e s operand.2) (p : Position) :
    Calculates settings e s ⟨.arithmetic first rest, p⟩ := by
  have hgood : (∀ w ∈ (Node.mk (.arithmetic first rest) p).workings, w.Feasible) ↔
      (∀ w ∈ first.workings, w.Feasible) ∧ True ∧
        (∀ w ∈ foldWorkings first.exact rest, w.Feasible) ∧ True := by
    rw [Node.workings, NodeKind.workings, List.forall_mem_append, true_and, and_true]
  refine Yields.of_step (.congr (hfirst.bind fun v hv => ?_) hgood.symm)
  refine (toInteger_yields hv first.position).bind fun n hn => ?_
  rw [Node.exact, NodeKind.exact, ← hn]
  exact (fold_yields hrest n).bind fun m hm => .pure ⟨m, rfl, hm⟩

theorem calculates (settings : Settings) (e : FrameRef) (s : State) (h : node.IsCalculation) :
    Calculates settings e s node := by
  induction h with
  | number hdigits => exact number_calculates hdigits _
  | plus _ ih => exact plus_calculates ih _
  | minus _ ih => exact minus_calculates ih _
  | arithmetic _ _ hfirst hrest => exact arithmetic_calculates hfirst hrest _

theorem evaluate_number_eq_failure {digits : String} (h : (Token.number digits).WellFormed)
    (p : Position) (steps : Nat) :
    evaluate settings (steps + 1) ⟨.number digits, p⟩ e s =
        .failure (.raised (.literalTooLarge digits) p) s ↔
      Int64.maxValue.toInt < placeValue digits.toList := by
  simp only [evaluate, step]
  rw [← literal?_eq_none_iff h]
  cases literal? digits with
  | some n => exact iff_of_false (fun hvalue => by cases hvalue) fun hnone => by cases hnone
  | none => exact iff_of_true rfl rfl

end Calculation

/-- If the evaluation of a calculation gives a value, then it is the exact one, nothing has changed,
and all workings fit, without a division by zero or a remainder that lacks its quotient. If all
workings are like that, then the evaluation gives a value. A literal of any length is refused
exactly if the number that it stands for is too large. -/
theorem evaluate_calculation {node : Node} (h : node.IsCalculation) (settings : Settings)
    (e : FrameRef) (s : State) :
    (∀ steps v t, evaluate settings steps node e s = .value v t →
      (∃ n : Int64, v = .integer n ∧ n.toInt = node.exact) ∧ t = s ∧
        ∀ w ∈ node.workings, w.Feasible) ∧
    ((∀ w ∈ node.workings, w.Feasible) → ∃ n : Int64, n.toInt = node.exact ∧
      ∃ k, ∀ steps, k ≤ steps → evaluate settings steps node e s = .value (.integer n) s) ∧
    ∀ digits p steps, (Token.number digits).WellFormed →
      (evaluate settings (steps + 1) ⟨.number digits, p⟩ e s =
          .failure (.raised (.literalTooLarge digits) p) s ↔
        Int64.maxValue.toInt < placeValue digits.toList) := by
  have hyields := calculates settings e s h
  refine ⟨fun steps v t hvalue => ?_, fun hfeasible => ?_, ?_⟩
  · obtain ⟨rfl, hexact, hfeasible⟩ := hyields.value hvalue
    exact ⟨hexact, rfl, hfeasible⟩
  · obtain ⟨_, ⟨n, rfl, hexact⟩, hends⟩ := hyields.ends hfeasible
    exact ⟨n, hexact, hends⟩
  · exact fun digits p steps hdigits => evaluate_number_eq_failure hdigits p steps

/-- The least integer, as a number below the opposite of the greatest one. -/
def leastNumber : Node :=
  let greatest : Node := ⟨.number "009223372036854775807", ⟨1, 2⟩⟩
  ⟨.arithmetic ⟨.unary .minus greatest, ⟨1, 1⟩⟩ [(.subtract, ⟨.number "1", ⟨1, 26⟩⟩)], ⟨1, 1⟩⟩

theorem evaluate_calculation_leastNumber :
    leastNumber.IsCalculation ∧ (∀ w ∈ leastNumber.workings, w.Feasible) ∧
      (Token.number "9223372036854775808").WellFormed ∧
      (∃ n : Int64, n.toInt = -0x8000000000000000 ∧
        ∃ k, ∀ steps, k ≤ steps → evaluate {} steps leastNumber ⟨0⟩ {} = .value (.integer n) {}) ∧
      evaluate {} 1 ⟨.number "9223372036854775808", .start⟩ ⟨0⟩ {} =
        .failure (.raised (.literalTooLarge "9223372036854775808") .start) {} := by
  have hnumber {digits : String} {c : Char} {cs : List Char} (hdigits : digits.toList = c :: cs)
      (hall : (c :: cs).all Lexeme.isDecimal) : (Token.number digits).WellFormed := by
    rw [Token.WellFormed, hdigits]
    rw [List.all_cons, Bool.and_eq_true, List.all_eq_true] at hall
    exact Pattern.cons_mem_one_mul.2 ⟨hall.1, Pattern.mem_kstar_one.2 hall.2⟩
  have hnode : leastNumber.IsCalculation := by
    refine .arithmetic (.minus (.number (hnumber rfl (by decide)))) ?_
    exact List.forall_mem_singleton.2 (.number (hnumber rfl (by decide)))
  have hworkings : leastNumber.workings = [.literal 9223372036854775807,
      .opposite 9223372036854775807, .literal 1, .operation .subtract (-9223372036854775807) 1] :=
    rfl
  have hfeasible : ∀ w ∈ leastNumber.workings, w.Feasible := by
    rw [hworkings]
    simp only [List.forall_mem_cons]
    exact ⟨⟨by decide, id, id⟩, ⟨by decide, id, id⟩, ⟨by decide, id, id⟩,
      ⟨by decide, fun h => absurd h.1 (by decide), fun h => absurd h.1 (by decide)⟩,
      List.forall_mem_nil _⟩
  have hlarge : (Token.number "9223372036854775808").WellFormed := hnumber rfl (by decide)
  obtain ⟨-, hends, hliteral⟩ := evaluate_calculation hnode {} ⟨0⟩ {}
  exact ⟨hnode, hfeasible, hlarge, hends hfeasible,
    (hliteral "9223372036854775808" .start 0 hlarge).2 (by decide)⟩

end Eval
end Scriptlet
