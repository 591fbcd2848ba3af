import Scriptlet.Proofs.Eval.Steps
/-!
# Rows and groups

Operands that stand in a row share one flat node, and parentheses group some of them into a node of
their own. Main statement: it makes no difference how a row is split into groups, for `||` and `&&`,
for operators of one level, for the branches of a conditional and for statements
(`Eval.evaluate_regrouped`). Parts may have any effects and faults.
-/
namespace Scriptlet.Eval

/-- In every frame and from every state, one of two trees has an outcome exactly if the other has:
the same value or the same fault, in the same state, output and events included. -/
def MeansSame (settings : Settings) (tree tree' : Node) : Prop :=
  ∀ (e : FrameRef) (s : State) (outcome : Outcome Fault Value), outcome ≠ .timeout →
    ((∃ n, evaluate settings n tree e s = outcome) ↔ ∃ n, evaluate settings n tree' e s = outcome)

/-- A group takes one step more than the row that it is part of, and its parts are given one step
less, so that the evaluation of the groups lies between two of the row. -/
theorem MeansSame.of_outlasts {settings : Settings} {row groups : Node}
    (h : ∀ n e, Outlasts (evaluate settings (n + 2) groups e) (evaluate settings (n + 1) row e))
    (h' : ∀ n e, Outlasts (evaluate settings (n + 2) row e) (evaluate settings (n + 2) groups e)) :
    MeansSame settings row groups := by
  intro e s outcome houtcome
  have hmore (n k : Nat) (node : Node) := evaluate_outlasts settings (Nat.le_add_right n k) node e
  constructor
  · rintro ⟨n, rfl⟩
    exact ⟨n + 2, ((hmore n 1 row).trans (h n e)) s houtcome⟩
  · rintro ⟨n, rfl⟩
    exact ⟨n + 2, ((hmore n 2 groups).trans (h' n e)) s houtcome⟩

theorem MeansSame.of_eq {settings : Settings} {row groups : Node}
    (h : ∀ n e, evaluate settings (n + 2) groups e = evaluate settings (n + 1) row e) :
    MeansSame settings row groups := by
  refine .of_outlasts (fun n e => ?_) fun n e => ?_
  · rw [h]
    exact .refl _
  · rw [h]
    exact evaluate_outlasts settings (Nat.le_succ _) row e

section Rows

variable (evaluate : Node → FrameRef → Eval Value) (e : FrameRef)

theorem statements_append (last : Value) (body body' : List Node) :
    statements evaluate e last (body ++ body') =
      (do statements evaluate e (← statements evaluate e last body) body') := by
  induction body generalizing last with
  | nil => rw [List.nil_append, statements, pure_bind]
  | cons node body ih =>
    rw [List.cons_append, statements, statements, bind_assoc]
    exact bind_congr fun v => ih v

theorem branches_append (otherwise : Eval Value) (tried tried' : List (Node × Node)) :
    branches evaluate e otherwise (tried ++ tried') =
      branches evaluate e (branches evaluate e otherwise tried') tried := by
  induction tried with
  | nil => rfl
  | cons branch tried ih => rw [List.cons_append, branches, branches, ih]

theorem fold_append (n : Int64) (rest rest' : List (ArithmeticOperator × Node)) :
    fold evaluate e n (rest ++ rest') =
      (do fold evaluate e (← fold evaluate e n rest) rest') := by
  induction rest generalizing n with
  | nil => rw [List.nil_append, fold, pure_bind]
  | cons operand rest ih =>
    rw [List.cons_append, fold, fold]
    simp only [bind_assoc]
    exact bind_congr fun v => bind_congr fun m => bind_congr ih

theorem firstTruth_congr_last (stop : Bool) (last last' : Value) {xs : List Node} (h : xs ≠ []) :
    firstTruth evaluate e stop last xs = firstTruth evaluate e stop last' xs := by
  cases xs with
  | nil => exact absurd rfl h
  | cons node xs => rfl

theorem firstTruth_append_of_ne {stop : Bool} {last : Value} (h : last.truthy ≠ stop)
    (xs ys : List Node) :
    firstTruth evaluate e stop last (xs ++ ys) = (do
      let v ← firstTruth evaluate e stop last xs
      if v.truthy = stop then return v else firstTruth evaluate e stop v ys) := by
  induction xs generalizing last with
  | nil => rw [List.nil_append, firstTruth, pure_bind, if_neg h]
  | cons node xs ih =>
    rw [List.cons_append, firstTruth, firstTruth, bind_assoc]
    refine bind_congr fun v => ?_
    by_cases hv : v.truthy = stop
    · simp only [if_pos hv, pure_bind]
    · simp only [if_neg hv, ih hv]

theorem firstTruth_append (stop : Bool) (last : Value) {xs ys : List Node} (hxs : xs ≠ [])
    (hys : ys ≠ []) :
    firstTruth evaluate e stop last (xs ++ ys) = (do
      let v ← firstTruth evaluate e stop last xs
      if v.truthy = stop then return v else firstTruth evaluate e stop last ys) := by
  have hne : (Value.bool !stop).truthy ≠ stop := by simp [Value.truthy]
  have happend : xs ++ ys ≠ [] := List.append_ne_nil_of_left_ne_nil hxs ys
  rw [firstTruth_congr_last evaluate e stop last (.bool !stop) happend,
    firstTruth_append_of_ne evaluate e hne,
    firstTruth_congr_last evaluate e stop last (.bool !stop) hxs]
  refine bind_congr fun v => ?_
  rw [firstTruth_congr_last evaluate e stop v last hys]

end Rows

/-- The value is that of the second list, unless that list is empty. -/
theorem evaluate_statements_append (frame : FrameRef) (settings : Settings) (steps : Nat)
    (p : Position) (body body' : List Node) :
    evaluate settings steps ⟨.statements (body ++ body'), p⟩ frame = do
      let v ← evaluate settings steps ⟨.statements body, p⟩ frame
      let w ← evaluate settings steps ⟨.statements body', p⟩ frame
      return if body'.isEmpty then v else w := by
  cases steps with
  | zero => rfl
  | succ steps =>
    simp only [evaluate, step]
    rw [statements_append]
    refine bind_congr fun v => ?_
    cases body' with
    | nil => rw [statements, statements, pure_bind]; rfl
    | cons node body' => exact (bind_pure _).symm

section Groups

variable (settings : Settings) (p p' q q' : Position)

/-- Both kinds of rows whose value is that of the first operand with a certain truth. -/
theorem firstTruth_meansSame {kind : List Node → NodeKind} {stop : Bool}
    (hkind : ∀ xs p e n, evaluate settings (n + 1) ⟨kind xs, p⟩ e =
      firstTruth (evaluate settings n) e stop .undefined xs)
    {xs ys : List Node} (hxs : xs ≠ []) (hys : ys ≠ []) :
    MeansSame settings ⟨kind (xs ++ ys), p⟩ ⟨kind [⟨kind xs, q⟩, ⟨kind ys, q'⟩], p'⟩ := by
  refine .of_eq fun n e => ?_
  rw [hkind, hkind, firstTruth_append _ e stop .undefined hxs hys, firstTruth, hkind]
  refine bind_congr fun v => ?_
  -- After the second group nothing is left, whatever its truth.
  have hsecond : firstTruth (evaluate settings (n + 1)) e stop v [⟨kind ys, q'⟩] =
      firstTruth (evaluate settings n) e stop .undefined ys := by
    rw [firstTruth, hkind]
    simp only [firstTruth, ite_self, bind_pure]
  rw [hsecond]

theorem arithmetic_meansSame (first : Node) (rest rest' : List (ArithmeticOperator × Node)) :
    MeansSame settings ⟨.arithmetic first (rest ++ rest'), p⟩
      ⟨.arithmetic ⟨.arithmetic first rest, q⟩ rest', p'⟩ := by
  have hrow (n : Nat) (e : FrameRef) :
      evaluate settings (n + 1) ⟨.arithmetic first (rest ++ rest'), p⟩ e = do
        let v ← evaluate settings n first e
        let k ← v.toInteger first.position
        let m ← fold (evaluate settings n) e k rest
        return .integer (← fold (evaluate settings n) e m rest') := by
    simp only [evaluate, step, fold_append, bind_assoc]
  have hgroups (n : Nat) (e : FrameRef) :
      evaluate settings (n + 2) ⟨.arithmetic ⟨.arithmetic first rest, q⟩ rest', p'⟩ e = do
        let v ← evaluate settings n first e
        let k ← v.toInteger first.position
        let m ← fold (evaluate settings n) e k rest
        return .integer (← fold (evaluate settings (n + 1)) e m rest') := by
    rw [evaluate, step]
    dsimp only
    rw [evaluate, step]
    simp only [bind_assoc, pure_bind]
    rfl
  refine .of_outlasts (fun n e => ?_) fun n e => ?_
  · have hmore := evaluate_outlasts settings (Nat.le_succ n)
    rw [hrow, hgroups]
    refine .bind (.refl _) fun v => .bind (.refl _) fun k => .bind (.refl _) fun m => ?_
    exact .bind (fold_outlasts hmore m rest') fun _ => .refl _
  · have hmore := evaluate_outlasts settings (Nat.le_succ n)
    rw [hrow, hgroups]
    refine .bind (hmore first e) fun v => .bind (.refl _) fun k => ?_
    exact .bind (fold_outlasts hmore k rest) fun _ => .refl _

def otherwiseValue (evaluate : Node → FrameRef → Eval Value) (otherwise : Option Node)
    (e : FrameRef) : Eval Value :=
  otherwise.elim (return .undefined) fun body => evaluate body e

theorem evaluate_conditional (n : Nat) (e : FrameRef) (tried : List (Node × Node))
    (otherwise : Option Node) (p : Position) :
    evaluate settings (n + 1) ⟨.conditional tried otherwise, p⟩ e =
      branches (evaluate settings n) e (otherwiseValue (evaluate settings n) otherwise e)
        tried := by
  cases otherwise <;> rfl

theorem otherwiseValue_outlasts {evaluate evaluate' : Node → FrameRef → Eval Value}
    (h : ∀ node e, Outlasts (evaluate node e) (evaluate' node e)) (otherwise : Option Node)
    (e : FrameRef) :
    Outlasts (otherwiseValue evaluate otherwise e) (otherwiseValue evaluate' otherwise e) := by
  cases otherwise with
  | none => exact .refl _
  | some body => exact h body e

theorem conditional_meansSame (tried tried' : List (Node × Node)) (otherwise : Option Node) :
    MeansSame settings ⟨.conditional (tried ++ tried') otherwise, p⟩
      ⟨.conditional tried (some ⟨.conditional tried' otherwise, q⟩), p'⟩ := by
  have hrow (n : Nat) (e : FrameRef) :
      evaluate settings (n + 1) ⟨.conditional (tried ++ tried') otherwise, p⟩ e =
        branches (evaluate settings n) e (branches (evaluate settings n) e
          (otherwiseValue (evaluate settings n) otherwise e) tried') tried := by
    rw [evaluate_conditional, branches_append]
  have hgroups (n : Nat) (e : FrameRef) :
      evaluate settings (n + 2)
          ⟨.conditional tried (some ⟨.conditional tried' otherwise, q⟩), p'⟩ e =
        branches (evaluate settings (n + 1)) e (branches (evaluate settings n) e
          (otherwiseValue (evaluate settings n) otherwise e) tried') tried := by
    rw [← evaluate_conditional settings n e tried' otherwise q]
    rfl
  refine .of_outlasts (fun n e => ?_) fun n e => ?_
  · rw [hrow, hgroups]
    exact branches_outlasts (evaluate_outlasts settings (Nat.le_succ n)) (.refl _) tried
  · have hmore := evaluate_outlasts settings (Nat.le_succ n)
    rw [hrow, hgroups]
    exact branches_outlasts (fun _ _ => .refl _)
      (branches_outlasts hmore (otherwiseValue_outlasts hmore otherwise e) tried') tried

theorem statements_meansSame (xs : List Node) {ys : List Node} (hys : ys ≠ []) :
    MeansSame settings ⟨.statements (xs ++ ys), p⟩
      ⟨.statements [⟨.statements xs, q⟩, ⟨.statements ys, q'⟩], p'⟩ := by
  refine .of_eq fun n e => ?_
  rw [evaluate_statements_append]
  simp only [List.isEmpty_eq_false_iff.2 hys, Bool.false_eq_true, if_false]
  rfl

end Groups

/-- Rows and their groups mean the same: operands of `||` or of `&&` with both groups filled,
operators of one level with the first ones applied in a group, branches of a conditional with the
later ones in a conditional that stands in the last alternative, and statements of which the second
group is filled. The places of the nodes, also of the groups, make no difference. -/
theorem evaluate_regrouped (settings : Settings) (p p' q q' : Position) :
    (∀ kind ∈ [NodeKind.disjunction, .conjunction], ∀ xs ys : List Node, xs ≠ [] → ys ≠ [] →
      MeansSame settings ⟨kind (xs ++ ys), p⟩ ⟨kind [⟨kind xs, q⟩, ⟨kind ys, q'⟩], p'⟩) ∧
    (∀ first rest rest', MeansSame settings ⟨.arithmetic first (rest ++ rest'), p⟩
      ⟨.arithmetic ⟨.arithmetic first rest, q⟩ rest', p'⟩) ∧
    (∀ tried tried' otherwise, MeansSame settings ⟨.conditional (tried ++ tried') otherwise, p⟩
      ⟨.conditional tried (some ⟨.conditional tried' otherwise, q⟩), p'⟩) ∧
    ∀ xs ys, ys ≠ [] → MeansSame settings ⟨.statements (xs ++ ys), p⟩
      ⟨.statements [⟨.statements xs, q⟩, ⟨.statements ys, q'⟩], p'⟩ := by
  refine ⟨fun kind hkind xs ys hxs hys => ?_, arithmetic_meansSame settings p p' q,
    conditional_meansSame settings p p' q, fun xs ys => statements_meansSame settings p p' q q' xs⟩
  simp only [List.mem_cons, List.not_mem_nil, or_false] at hkind
  rcases hkind with rfl | rfl
  · exact firstTruth_meansSame settings p p' q q' (fun _ _ _ _ => rfl) hxs hys
  · exact firstTruth_meansSame settings p p' q q' (fun _ _ _ _ => rfl) hxs hys

/-- The first group makes a variable, and the second one reads it and then fails. -/
theorem evaluate_regrouped_failingOperand :
    let frame : State := { store := { frames := #[{}] } }
    let xs : List Node := [⟨.assignment true "x" ⟨.number "1", ⟨1, 9⟩⟩, ⟨1, 1⟩⟩]
    let ys : List Node := [⟨.identifier "x", ⟨1, 15⟩⟩, ⟨.identifier "y", ⟨1, 20⟩⟩]
    let groups : Node :=
      ⟨.conjunction [⟨.conjunction xs, ⟨1, 1⟩⟩, ⟨.conjunction ys, ⟨1, 15⟩⟩], ⟨1, 1⟩⟩
    xs ≠ [] ∧ ys ≠ [] ∧ ∃ n t,
      evaluate {} n groups ⟨0⟩ frame = .failure (.raised (.undefinedVariable "y") ⟨1, 20⟩) t ∧
      t.store.get? ⟨0⟩ "x" = some (.integer 1) := by
  intro frame xs ys groups
  have hrow : ∃ t, evaluate {} 3 ⟨.conjunction (xs ++ ys), ⟨1, 1⟩⟩ ⟨0⟩ frame =
      .failure (.raised (.undefinedVariable "y") ⟨1, 20⟩) t ∧
      t.store.get? ⟨0⟩ "x" = some (.integer 1) := ⟨_, rfl, rfl⟩
  obtain ⟨t, ht, hx⟩ := hrow
  obtain ⟨hrows, -⟩ := evaluate_regrouped {} ⟨1, 1⟩ ⟨1, 1⟩ ⟨1, 1⟩ ⟨1, 15⟩
  have hgroups :=
    hrows .conjunction (by simp) xs ys (List.cons_ne_nil _ _) (List.cons_ne_nil _ _)
  obtain ⟨n, hn⟩ := (hgroups ⟨0⟩ frame _ (by simp)).1 ⟨3, ht⟩
  exact ⟨List.cons_ne_nil _ _, List.cons_ne_nil _ _, n, t, hn, hx⟩

end Scriptlet.Eval
