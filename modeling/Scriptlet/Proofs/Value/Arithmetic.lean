import Scriptlet.Value.Arithmetic
/-!
# When arithmetic fails

An operator fails for a divisor of zero, and where its exact result is no 64-bit integer. There is
one case more: the remainder of the least integer by minus one is zero, but the quotient that
belongs to it is too large, and the remainder is refused together with it. Main statement: the
faults and the results of all operators on all operands (`Arithmetic.apply_exact`).
-/
namespace Scriptlet.Arithmetic

/-- The exact result of an operator. The quotient goes toward zero and the remainder has the sign of
the dividend. -/
def exact (op : ArithmeticOperator) (a b : Int) : Int :=
  match op with
  | .add => a + b
  | .subtract => a - b
  | .multiply => a * b
  | .divide => a.tdiv b
  | .remainder => a.tmod b

def LacksQuotient (op : ArithmeticOperator) (a b : Int64) : Prop :=
  op = .remainder ∧ a = Int64.minValue ∧ b = -1

instance (op : ArithmeticOperator) (a b : Int64) : Decidable (LacksQuotient op a b) :=
  inferInstanceAs (Decidable (_ ∧ _))

theorem divides_iff {op : ArithmeticOperator} : divides op ↔ op = .divide ∨ op = .remainder := by
  cases op <;> simp [divides]

theorem fits_toInt (a : Int64) : Fits a.toInt :=
  ⟨a.le_toInt, a.toInt_lt⟩

theorem fit?_of_fits {n : Int} (h : Fits n) : ∃ m, fit? n = some m ∧ m.toInt = n :=
  ⟨Int64.ofInt n, if_pos h, Int64.toInt_ofInt_of_le h.1 h.2⟩

theorem toInt_eq_minValue {a : Int64} : a.toInt = -0x8000000000000000 ↔ a = Int64.minValue := by
  rw [← Int64.toInt_inj]
  rfl

theorem toInt_eq_neg_one {b : Int64} : b.toInt = -1 ↔ b = -1 := by
  rw [← Int64.toInt_inj]
  rfl

/-- A quotient is smaller than its dividend, unless the divisor is one or minus one. -/
theorem fits_tdiv_iff (a b : Int64) :
    Fits (a.toInt.tdiv b.toInt) ↔ ¬ (a = Int64.minValue ∧ b = -1) := by
  obtain ⟨hlow, hhigh⟩ := fits_toInt a
  rw [← toInt_eq_minValue, ← toInt_eq_neg_one]
  generalize a.toInt = a, b.toInt = b at *
  by_cases hunit : b.natAbs = 1
  · rcases (by omega : b = 1 ∨ b = -1) with rfl | rfl
    · rw [Int.tdiv_one, Fits]
      omega
    · -- the least integer has no opposite
      rw [Int.tdiv_neg, Int.tdiv_one, Fits]
      omega
  · have habs : (a.tdiv b).natAbs = a.natAbs / b.natAbs := Int.natAbs_tdiv a b
    have hhalf : a.natAbs / b.natAbs ≤ a.natAbs / 2 := by
      rcases Nat.eq_zero_or_pos b.natAbs with hzero | hpos
      · rw [hzero, Nat.div_zero]
        exact Nat.zero_le _
      · exact Nat.div_le_div_left (by omega) (by decide)
    rw [Fits]
    omega

theorem compute?_eq (op : ArithmeticOperator) (a b : Int64) :
    compute? op a.toInt b.toInt =
      if LacksQuotient op a b then none else some (exact op a.toInt b.toInt) := by
  cases op with
  | remainder =>
    simp only [compute?, exact, LacksQuotient, fits_tdiv_iff, ite_not, true_and]
  | _ => simp [compute?, exact, LacksQuotient]

theorem apply_of_zero {op : ArithmeticOperator} (h : divides op) (a : Int64) (p : Position) :
    apply op a 0 p = .error (.raised .divisionByZero p) := by
  simp [apply, h]

theorem apply_of_not_zero {op : ArithmeticOperator} {b : Int64} (h : ¬ (divides op ∧ b = 0))
    (a : Int64) (p : Position) :
    apply op a b p =
      ((compute? op a.toInt b.toInt).bind fit?).elim (.error (.raised .overflow p)) .ok := by
  rw [apply, if_neg (by simpa using h)]
  cases (compute? op a.toInt b.toInt).bind fit? <;> rfl

theorem apply_eq_ok_iff {op : ArithmeticOperator} {a b n : Int64} {p : Position} :
    apply op a b p = .ok n ↔
      ¬ (divides op ∧ b = 0) ∧ ¬ LacksQuotient op a b ∧ n.toInt = exact op a.toInt b.toInt := by
  by_cases hzero : divides op ∧ b = 0
  · obtain ⟨hdivides, rfl⟩ := hzero
    simp [apply_of_zero hdivides, hdivides]
  · rw [apply_of_not_zero hzero, compute?_eq]
    by_cases hlacks : LacksQuotient op a b
    · simp [hlacks]
    · rw [if_neg hlacks, Option.bind_some, ← fit?_eq_some_iff]
      cases fit? (exact op a.toInt b.toInt) <;> simp [hzero, hlacks]

theorem apply_eq_error {op : ArithmeticOperator} {a b : Int64} {p : Position} {fault : Fault}
    (h : apply op a b p = .error fault) :
    (divides op ∧ b = 0) ∨ fault = .raised .overflow p := by
  by_cases hzero : divides op ∧ b = 0
  · exact .inl hzero
  · rw [apply_of_not_zero hzero] at h
    cases hfit : (compute? op a.toInt b.toInt).bind fit? with
    | some n => simp [hfit] at h
    | none => exact .inr (by simpa [hfit, eq_comm] using h)

theorem applyUnary_minus_integer (n : Int64) (p : Position) :
    applyUnary .minus (.integer n) p =
      (fit? (-n.toInt)).elim (.error (.raised .overflow p)) fun m => .ok (.integer m) := by
  simp only [applyUnary, Value.toInteger, ofInt, bind, Except.bind, pure, Except.pure]
  cases fit? (-n.toInt) <;> rfl

/-- An operator fails for a divisor of zero; for any other operand it fails if the exact result does
not fit or is the remainder without a quotient, and it gives the exact result if neither holds. -/
theorem apply_exact (op : ArithmeticOperator) (a b : Int64) (p : Position) :
    (apply op a b p = .error (.raised .divisionByZero p) ↔
      (op = .divide ∨ op = .remainder) ∧ b = 0) ∧
    (¬ ((op = .divide ∨ op = .remainder) ∧ b = 0) →
      (apply op a b p = .error (.raised .overflow p) ↔
        ¬ Fits (exact op a.toInt b.toInt) ∨ LacksQuotient op a b) ∧
      (Fits (exact op a.toInt b.toInt) ∧ ¬ LacksQuotient op a b →
        ∃ n, apply op a b p = .ok n ∧ n.toInt = exact op a.toInt b.toInt)) := by
  rw [← divides_iff]
  by_cases hzero : divides op ∧ b = 0
  · obtain ⟨hdivides, rfl⟩ := hzero
    simp [apply_of_zero hdivides, hdivides]
  · rw [apply_of_not_zero hzero, compute?_eq]
    by_cases hlacks : LacksQuotient op a b
    · simp [hlacks, hzero]
    · rw [if_neg hlacks, Option.bind_some]
      by_cases hfits : Fits (exact op a.toInt b.toInt)
      · obtain ⟨n, hn, hexact⟩ := fit?_of_fits hfits
        simp [hn, hexact, hfits, hlacks, hzero]
      · simp [fit?, hfits, hzero]

/-- The remainder of the least integer by minus one is zero, and is refused all the same. -/
theorem remainder_fails_on_zero :
    ¬ ∀ op a b p, ¬ ((op = .divide ∨ op = .remainder) ∧ b = 0) →
      (apply op a b p = .error (.raised .overflow p) ↔ ¬ Fits (exact op a.toInt b.toInt)) := by
  intro hall
  have hfits : Fits (exact .remainder Int64.minValue.toInt (-1 : Int64).toInt) := by decide
  have hfails : apply .remainder Int64.minValue (-1) .start =
      .error (.raised .overflow .start) := rfl
  exact (hall .remainder Int64.minValue (-1) .start (by decide)).1 hfails hfits

end Scriptlet.Arithmetic
