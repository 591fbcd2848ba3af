import Scriptlet.Syntax.Node
import Scriptlet.Value.Conversion
/-!
Arithmetic on 64-bit integers. Results are computed exactly and refused if they do not fit; the
quotient goes toward zero and the remainder has the sign of the dividend. Main statement: a number
that fits is kept (`fit?_eq_some_iff`).
-/
namespace Scriptlet.Arithmetic

/-- The numbers that an integer value can hold. -/
def Fits (n : Int) : Prop :=
  -0x8000000000000000 ≤ n ∧ n < 0x8000000000000000

instance (n : Int) : Decidable (Fits n) :=
  inferInstanceAs (Decidable (_ ∧ _))

def fit? (n : Int) : Option Int64 :=
  if Fits n then some (Int64.ofInt n) else none

/-- The exact result of an operator, for a divisor that is not zero. A remainder counts as fitting
only if the quotient that belongs to it fits. -/
def compute? (op : ArithmeticOperator) (a b : Int) : Option Int :=
  match op with
  | .add => some (a + b)
  | .subtract => some (a - b)
  | .multiply => some (a * b)
  | .divide => some (a.tdiv b)
  | .remainder => if Fits (a.tdiv b) then some (a.tmod b) else none

def divides : ArithmeticOperator → Bool
  | .divide | .remainder => true
  | _ => false

/-- Applies an operator; faults are reported at `p`. -/
def apply (op : ArithmeticOperator) (a b : Int64) (p : Position) : Except Fault Int64 :=
  if divides op && b = 0 then .error (.raised .divisionByZero p)
  else
    match (compute? op a.toInt b.toInt).bind fit? with
    | some n => .ok n
    | none => .error (.raised .overflow p)

/-- The integer value of a number; a number that does not fit is reported at `p`. -/
def ofInt (n : Int) (p : Position) : Except Fault Int64 :=
  match fit? n with
  | some n => .ok n
  | none => .error (.raised .overflow p)

def ofNat (n : Nat) (p : Position) : Except Fault Int64 :=
  ofInt n p

/-- The natural number that an integer value is, unless it is negative. -/
def toNat? (n : Int64) : Option Nat :=
  if 0 ≤ n.toInt then some n.toInt.toNat else none

def decimal (digits : List Char) : Nat :=
  digits.foldl (fun n c => 10 * n + (c.toNat - '0'.toNat)) 0

def literal? (digits : String) : Option Int64 :=
  if !digits.isEmpty && digits.toList.all fun c => '0' ≤ c && c ≤ '9' then
    fit? (decimal digits.toList)
  else none

def applyUnary (op : UnaryOperator) (v : Value) (p : Position) : Except Fault Value :=
  match op with
  | .plus => .ok v
  | .minus => do
    let n ← v.toInteger p
    return .integer (← ofInt (-n.toInt) p)
  | .not => .ok (.bool !v.truthy)

theorem fit?_eq_some_iff {n : Int} {m : Int64} : fit? n = some m ↔ m.toInt = n := by
  unfold fit?
  constructor
  · intro h
    split at h
    · next hf =>
      cases h
      exact Int64.toInt_ofInt_of_le hf.1 hf.2
    · cases h
  · rintro rfl
    have hf : Fits m.toInt := ⟨m.le_toInt, m.toInt_lt⟩
    simp [hf]

end Scriptlet.Arithmetic
