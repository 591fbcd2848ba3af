import Mathlib.Logic.ExistsUnique
import Mathlib.Tactic.SplitIfs
import Scriptlet.Value.Comparison
/-!
# The order of values

The four operators that need an order compare integers with integers, texts with texts and truth
values with truth values. Equality goes another way, and compares any two values. Main statement:
the order is total on each of the three types, and equality agrees with it; texts are in the order
of their bytes in UTF-8, which is the order of their code points (`Store.compare_totalOrder`).
-/
namespace Scriptlet
open Std

namespace Text

theorem byte_lt {m n : Nat} (h : m < n) (hn : n < 256) : UInt8.ofNat m < UInt8.ofNat n := by
  rw [UInt8.lt_iff_toNat_lt, UInt8.toNat_ofNat', UInt8.toNat_ofNat', Nat.mod_eq_of_lt hn,
    Nat.mod_eq_of_lt (by omega)]
  exact h

/-- Numbers below a bound are written in ascending order, whatever follows them. -/
def Ascends (bound : Nat) (write : Nat → List UInt8) : Prop :=
  ∀ ⦃m n⦄, m < n → n < bound → ∀ bytes bytes', write m ++ bytes < write n ++ bytes'

theorem ascends_lead (lead : Nat) {bound : Nat} (h : bound + lead ≤ 256) :
    Ascends bound fun n => [UInt8.ofNat (n % bound + lead)] := by
  intro m n hmn hn bytes bytes'
  dsimp only
  rw [Nat.mod_eq_of_lt hn, Nat.mod_eq_of_lt (by omega)]
  exact .rel (byte_lt (by omega) (by omega))

theorem Ascends.continued {bound : Nat} {write : Nat → List UInt8} (h : Ascends bound write) :
    Ascends (64 * bound) fun n => write (n / 64) ++ [UInt8.ofNat (n % 64 + 128)] := by
  intro m n hmn hn bytes bytes'
  simp only [List.append_assoc]
  rcases Nat.eq_or_lt_of_le (Nat.div_le_div_right (c := 64) (Nat.le_of_lt hmn)) with heq | hlt
  · rw [heq]
    exact List.append_left_lt (.rel (byte_lt (by omega) (by omega)))
  · exact h hlt (by omega) _ _

/-- A smaller character is written as bytes that come first, whatever follows: a longer form starts
with a greater byte, and forms of one length ascend byte by byte. -/
theorem utf8_lt_of_lt ⦃c d : Char⦄ (h : c < d) (bytes bytes' : List UInt8) :
    String.utf8EncodeChar c ++ bytes < String.utf8EncodeChar d ++ bytes' := by
  have hlt : c.val.toNat < d.val.toNat := h
  have hd : d.val.toNat < 0x110000 :=
    d.valid.elim (fun h => Nat.lt_trans h (by decide)) And.right
  unfold String.utf8EncodeChar
  generalize c.val.toNat = m at *
  generalize d.val.toNat = n at *
  have hlead {a b : Nat} {as bs : List UInt8} (hab : a < b) (hb : b < 256) :
      UInt8.ofNat a :: as < UInt8.ofNat b :: bs := .rel (byte_lt hab hb)
  have htwo : Ascends (64 * 32) _ := (ascends_lead 0xc0 (by decide)).continued
  have hthree : Ascends (64 * (64 * 16)) _ :=
    (ascends_lead 0xe0 (by decide)).continued.continued
  have hfour : Ascends (64 * (64 * (64 * 8))) _ :=
    (ascends_lead 0xf0 (by decide)).continued.continued.continued
  simp only [Ascends, Nat.div_div_eq_div_mul, Nat.reduceMul, List.cons_append,
    List.nil_append] at htwo hthree hfour
  dsimp only
  split_ifs
  all_goals try omega
  all_goals try exact hlead (by omega) (by omega)
  · exact htwo hlt (by omega) bytes bytes'
  · exact hthree hlt (by omega) bytes bytes'
  · exact hfour hlt (by omega) bytes bytes'

/-- A list of characters, each written so that ascending characters are, is written in ascending
order. -/
theorem flatMap_lt_of_lt {β : Type} [LT β] {write : Char → List β}
    (h : ∀ ⦃c d⦄, c < d → ∀ bs bs', write c ++ bs < write d ++ bs') (hne : ∀ c, write c ≠ [])
    {cs ds : List Char} (hlt : cs < ds) : cs.flatMap write < ds.flatMap write := by
  induction hlt with
  | @nil d ds =>
    obtain ⟨b, bs, hwrite⟩ := List.exists_cons_of_ne_nil (hne d)
    rw [List.flatMap_nil, List.flatMap_cons, hwrite]
    exact .nil
  | rel hcd => exact h hcd _ _
  | cons _ ih => exact List.append_left_lt ih

theorem flatMap_lt_iff {β : Type} [LT β] [Irrefl fun b b' : β => b < b']
    [Asymm fun b b' : β => b < b'] {write : Char → List β}
    (h : ∀ ⦃c d⦄, c < d → ∀ bs bs', write c ++ bs < write d ++ bs') (hne : ∀ c, write c ≠ [])
    {cs ds : List Char} : cs.flatMap write < ds.flatMap write ↔ cs < ds := by
  refine ⟨fun hlt => ?_, flatMap_lt_of_lt h hne⟩
  by_cases hcd : cs < ds
  · exact hcd
  · rcases List.le_iff_lt_or_eq.1 (List.not_lt.1 hcd) with hdc | rfl
    · exact absurd hlt (List.lt_asymm (flatMap_lt_of_lt h hne hdc))
    · exact absurd hlt (List.lt_irrefl _)

theorem bytes_lt_iff (s t : String) : s.toUTF8.data.toList < t.toUTF8.data.toList ↔ s < t := by
  have hbytes (s : String) : s.toUTF8.data.toList = s.toList.flatMap String.utf8EncodeChar := by
    rw [String.toUTF8, ← String.utf8Encode_toList, List.utf8Encode, List.toList_data_toByteArray]
  rw [hbytes, hbytes]
  exact flatMap_lt_iff utf8_lt_of_lt fun c => String.utf8EncodeChar_ne_nil

theorem codePoints_lt_iff (s t : String) :
    s.toList.map Char.toNat < t.toList.map Char.toNat ↔ s < t := by
  have hpoints (cs : List Char) : cs.map Char.toNat = cs.flatMap fun c => [c.toNat] :=
    List.map_eq_flatMap
  rw [hpoints, hpoints]
  refine flatMap_lt_iff (fun c d hcd bs bs' => ?_) fun c => List.cons_ne_nil _ _
  have hlt : c.toNat < d.toNat := hcd
  exact .rel hlt

end Text

/-! ## Ordered values -/

namespace Value

variable {a b c : Value} {p : Position} {o : Ordering}

/-- Two integers, two texts or two truth values. -/
def Comparable (a b : Value) : Prop :=
  a.type = b.type ∧ a.type ∈ [ValueType.integer, .string, .bool]

instance (a b : Value) : Decidable (a.Comparable b) :=
  inferInstanceAs (Decidable (_ ∧ _))

theorem order_eq_ok : a.order b p = .ok o ↔
    (∃ m n : Int64, a = .integer m ∧ b = .integer n ∧ compare m.toInt n.toInt = o) ∨
    (∃ s t : String, a = .string s ∧ b = .string t ∧ compare s t = o) ∨
    ∃ x y : Bool, a = .bool x ∧ b = .bool y ∧ compare x y = o := by
  cases a <;> cases b <;> simp [order]

theorem comparable_comm : a.Comparable b ↔ b.Comparable a := by
  constructor <;> rintro ⟨htype, hmem⟩ <;> exact ⟨htype.symm, htype ▸ hmem⟩

theorem comparable_iff_order (p : Position) : a.Comparable b ↔ ∃ o, a.order b p = .ok o := by
  cases a <;> cases b <;> simp [Comparable, order, Value.type]

theorem order_of_not_comparable (h : ¬ a.Comparable b) (p : Position) :
    ∃ expected found, a.order b p = .error (.raised (.typeMismatch expected found) p) := by
  have hcases : (∃ o, a.order b p = .ok o) ∨
      ∃ expected found, a.order b p = .error (.raised (.typeMismatch expected found) p) := by
    cases a <;> cases b <;> simp [order, mismatch]
  exact hcases.resolve_left fun hok => h ((comparable_iff_order p).2 hok)

theorem order_eq_iff (h : a.order b p = .ok o) : o = .eq ↔ a = b := by
  rcases order_eq_ok.1 h with ⟨m, n, rfl, rfl, rfl⟩ | ⟨s, t, rfl, rfl, rfl⟩ | ⟨x, y, rfl, rfl, rfl⟩
  · rw [LawfulEqCmp.compare_eq_iff_eq, Int64.toInt_inj, integer.injEq]
  · rw [LawfulEqCmp.compare_eq_iff_eq, string.injEq]
  · rw [LawfulEqCmp.compare_eq_iff_eq, bool.injEq]

theorem order_trans (h : a.order b p = .ok .lt) (h' : b.order c p = .ok .lt) :
    a.order c p = .ok .lt := by
  rcases order_eq_ok.1 h with ⟨m, n, rfl, rfl, hlt⟩ | ⟨s, t, rfl, rfl, hlt⟩ | ⟨x, y, rfl, rfl, hlt⟩
  · cases c with
    | integer k =>
      rw [order, Except.ok.injEq] at h' ⊢
      exact TransCmp.lt_trans hlt h'
    | _ => cases h'
  · cases c with
    | string u =>
      rw [order, Except.ok.injEq] at h' ⊢
      exact TransCmp.lt_trans hlt h'
    | _ => cases h'
  · cases c with
    | bool z =>
      rw [order, Except.ok.injEq] at h' ⊢
      exact TransCmp.lt_trans hlt h'
    | _ => cases h'

end Value

namespace Store

variable {a b c : Value} {p : Position} {o : Ordering}

/-- Ordered values are equal only if they are the same. -/
theorem equal_of_comparable (s : Store) (h : a.Comparable b) : s.equal a b = decide (a = b) := by
  obtain ⟨o, ho⟩ := (Value.comparable_iff_order .start).1 h
  rw [equal]
  rcases Value.order_eq_ok.1 ho with ⟨m, n, rfl, rfl, -⟩ | ⟨x, y, rfl, rfl, -⟩ | ⟨x, y, rfl, rfl, -⟩
  all_goals rw [equalAssuming] <;> simp

def orderings : List ComparisonOperator := [.less, .lessEqual, .greater, .greaterEqual]

theorem exists_compare_eq_map (s : Store) {op : ComparisonOperator} (hop : op ∈ orderings) :
    ∃ holds : Ordering → Bool, ∀ a b p, s.compare op a b p = (a.order b p).map holds := by
  simp only [orderings, List.mem_cons, List.not_mem_nil, or_false] at hop
  rcases hop with rfl | rfl | rfl | rfl <;> exact ⟨_, fun _ _ _ => rfl⟩

theorem compare_of_comparable (s : Store) {op : ComparisonOperator} (hop : op ∈ orderings)
    (h : a.Comparable b) (p : Position) : ∃ r, s.compare op a b p = .ok r := by
  obtain ⟨holds, hholds⟩ := s.exists_compare_eq_map hop
  obtain ⟨o, ho⟩ := (Value.comparable_iff_order p).1 h
  exact ⟨holds o, by rw [hholds, ho]; rfl⟩

theorem compare_of_not_comparable (s : Store) {op : ComparisonOperator} (hop : op ∈ orderings)
    (h : ¬ a.Comparable b) (p : Position) :
    ∃ expected found, s.compare op a b p = .error (.raised (.typeMismatch expected found) p) := by
  obtain ⟨holds, hholds⟩ := s.exists_compare_eq_map hop
  obtain ⟨expected, found, hfails⟩ := Value.order_of_not_comparable h p
  exact ⟨expected, found, by rw [hholds, hfails]; rfl⟩

theorem compare_eq_error_iff (s : Store) {op : ComparisonOperator} (hop : op ∈ orderings)
    (a b : Value) (p : Position) :
    (∃ fault, s.compare op a b p = .error fault) ↔ ¬ a.Comparable b := by
  constructor
  · rintro ⟨fault, hfails⟩ h
    obtain ⟨r, hr⟩ := s.compare_of_comparable hop h p
    rw [hr] at hfails
    cases hfails
  · intro h
    obtain ⟨expected, found, hfails⟩ := s.compare_of_not_comparable hop h p
    exact ⟨_, hfails⟩

/-- The operator that says what the order is. -/
def stating : Ordering → ComparisonOperator
  | .lt => .less
  | .eq => .equal
  | .gt => .greater

/-- Equality goes another way than the order, and agrees with it. -/
theorem compare_stating (s : Store) (h : a.order b p = .ok o) {op : ComparisonOperator}
    (hop : op ∈ [ComparisonOperator.less, .equal, .greater]) :
    s.compare op a b p = .ok (decide (op = stating o)) := by
  have hequal := Value.order_eq_iff h
  simp only [List.mem_cons, List.not_mem_nil, or_false] at hop
  rcases hop with rfl | rfl | rfl
  · rw [compare, h]
    cases o <;> rfl
  · have hstating : ComparisonOperator.equal = stating o ↔ o = .eq := by cases o <;> decide
    rw [compare, s.equal_of_comparable ((Value.comparable_iff_order p).2 ⟨o, h⟩)]
    exact congrArg Except.ok (decide_eq_decide.2 (hequal.symm.trans hstating.symm))
  · rw [compare, h]
    cases o <;> rfl

theorem existsUnique_compare (s : Store) (h : a.Comparable b) (p : Position) :
    ∃! op, op ∈ [ComparisonOperator.less, .equal, .greater] ∧ s.compare op a b p = .ok true := by
  obtain ⟨o, ho⟩ := (Value.comparable_iff_order p).1 h
  have hmem : stating o ∈ [ComparisonOperator.less, .equal, .greater] := by cases o <;> decide
  refine ⟨stating o, ⟨hmem, ?_⟩, ?_⟩
  · rw [s.compare_stating ho hmem, decide_eq_true rfl]
  · rintro op ⟨hop, htrue⟩
    rw [s.compare_stating ho hop, Except.ok.injEq, decide_eq_true_eq] at htrue
    exact htrue

theorem compare_less_eq_true (s : Store) :
    s.compare .less a b p = .ok true ↔ a.order b p = .ok .lt := by
  rw [compare]
  cases a.order b p with
  | error fault => simp [Except.map]
  | ok o => cases o <;> simp [Except.map]

theorem compare_less_strings (s : Store) (x y : String) (p : Position) :
    s.compare .less (.string x) (.string y) p = .ok true ↔ x < y := by
  rw [compare_less_eq_true, Value.order, Except.ok.injEq]
  exact compareOfLessAndEq_eq_lt

/-- The four operators that need an order fail exactly for two values that are not both integers,
both texts or both truth values, whichever stands first, and `==` and `!=` never fail. Of two values
that have an order, one is less than, equal to or greater than the other, and never two of these;
`<=` is the opposite of `>`, and `>=` of `<`. To be less is transitive. Texts are in the order of
their bytes in UTF-8, which is that of their code points. -/
theorem compare_totalOrder (s : Store) (a b c : Value) (p : Position) :
    (∀ op ∈ [ComparisonOperator.less, .lessEqual, .greater, .greaterEqual],
      (a.Comparable b → ∃ r, s.compare op a b p = .ok r) ∧
      (¬ a.Comparable b → ∃ expected found,
        s.compare op a b p = .error (.raised (.typeMismatch expected found) p)) ∧
      ((∃ fault, s.compare op a b p = .error fault) ↔
        ∃ fault, s.compare op b a p = .error fault)) ∧
    (∃ r, s.compare .equal a b p = .ok r ∧ s.compare .notEqual a b p = .ok !r) ∧
    (a.Comparable b →
      ∃! op, op ∈ [ComparisonOperator.less, .equal, .greater] ∧ s.compare op a b p = .ok true) ∧
    s.compare .lessEqual a b p = (s.compare .greater a b p).map (!·) ∧
    s.compare .greaterEqual a b p = (s.compare .less a b p).map (!·) ∧
    (s.compare .less a b p = .ok true → s.compare .less b c p = .ok true →
      s.compare .less a c p = .ok true) ∧
    ∀ x y : String,
      (s.compare .less (.string x) (.string y) p = .ok true ↔
        x.toUTF8.data.toList < y.toUTF8.data.toList) ∧
      (s.compare .less (.string x) (.string y) p = .ok true ↔
        x.toList.map Char.toNat < y.toList.map Char.toNat) := by
  have hswap (op : ComparisonOperator) (hop : op ∈ orderings) :
      (∃ fault, s.compare op a b p = .error fault) ↔
        ∃ fault, s.compare op b a p = .error fault := by
    rw [s.compare_eq_error_iff hop, s.compare_eq_error_iff hop, Value.comparable_comm]
  refine ⟨fun op hop => ⟨(s.compare_of_comparable hop · p),
      (s.compare_of_not_comparable hop · p), hswap op hop⟩,
    ⟨_, rfl, rfl⟩, (s.existsUnique_compare · p), ?_, ?_, ?_, fun x y => ?_⟩
  · rw [compare, compare]
    cases a.order b p with
    | error fault => rfl
    | ok o => cases o <;> rfl
  · rw [compare, compare]
    cases a.order b p with
    | error fault => rfl
    | ok o => cases o <;> rfl
  · simp only [compare_less_eq_true]
    exact Value.order_trans
  · rw [compare_less_strings, Text.bytes_lt_iff, Text.codePoints_lt_iff]
    exact ⟨.rfl, .rfl⟩

/-- A character that takes four bytes comes after one that takes three, and has no order with a
number. -/
theorem compare_totalOrder_longCharacter :
    let three : Value := .string "\uff5e"
    let four : Value := .string "😀"
    let longer : Value := .string "😀a"
    let compare (op : ComparisonOperator) (a b : Value) := ({} : Store).compare op a b .start
    three.Comparable four ∧ ¬ three.Comparable (.integer 1) ∧
      compare .less three four = .ok true ∧ compare .less four longer = .ok true ∧
      compare .less three longer = .ok true ∧
      (∃! op, op ∈ [ComparisonOperator.less, .equal, .greater] ∧ compare op three four = .ok true) ∧
      ∃ expected found, compare .greaterEqual three (.integer 1) =
        .error (.raised (.typeMismatch expected found) .start) := by
  intro three four longer compare
  have hcomparable : three.Comparable four := by decide
  have hnot : ¬ three.Comparable (.integer 1) := by decide
  obtain ⟨-, -, hunique, -, -, htrans, htexts⟩ := compare_totalOrder {} three four longer .start
  obtain ⟨hfails, -⟩ := compare_totalOrder {} three (.integer 1) longer .start
  have hless : compare .less three four = .ok true := (htexts _ _).2.2 (by decide)
  have hlonger : compare .less four longer = .ok true := (htexts _ _).2.2 (by decide)
  exact ⟨hcomparable, hnot, hless, hlonger, htrans hless hlonger, hunique hcomparable,
    (hfails .greaterEqual (by decide)).2.1 hnot⟩

end Store

end Scriptlet
