import Scriptlet.Program
import Scriptlet.Proofs.Eval.Walk
/-!
# More steps

An evaluation is given a number of steps, and runs out of them or ends before that. Main statement:
one that ends does so in the same way with any larger number of steps (`Eval.evaluate_outlasts`), so
it has one outcome (`Eval.evaluate_unique`). `Eval.Ends` speaks of a value that is reached with
enough steps; a program of one statement reaches the value of this statement
(`Program.run_of_ends`).
-/
namespace Scriptlet

namespace Eval

variable {α β : Type}

/-- The first computation ends as the second does, unless that runs out of steps. -/
def Outlasts (m' m : Eval α) : Prop :=
  ∀ s, m s ≠ .timeout → m' s = m s

section Basic

variable {m m' : Eval α} {f f' : α → Eval β}

theorem Outlasts.refl (m : Eval α) : Outlasts m m :=
  fun _ _ => rfl

theorem Outlasts.trans {m'' : Eval α} (h : Outlasts m' m) (h' : Outlasts m'' m') :
    Outlasts m'' m := by
  intro s hm
  have hm' := h s hm
  rw [← hm'] at hm
  exact (h' s hm).trans hm'

theorem Outlasts.timeout (m : Eval α) : Outlasts m timeout :=
  fun _ h => absurd rfl h

theorem Outlasts.value (h : Outlasts m' m) {s t : State} {a : α} (hm : m s = .value a t) :
    m' s = .value a t :=
  (h s (by simp [hm])).trans hm

theorem Outlasts.failure (h : Outlasts m' m) {s t : State} {fault : Fault}
    (hm : m s = .failure fault t) : m' s = .failure fault t :=
  (h s (by simp [hm])).trans hm

theorem Outlasts.bind (hm : Outlasts m' m) (hf : ∀ a, Outlasts (f' a) (f a)) :
    Outlasts (m' >>= f') (m >>= f) := by
  intro s h
  rw [bind_apply] at h
  have hends : m s ≠ .timeout := fun hm => h (by rw [hm])
  rw [bind_apply, bind_apply, hm s hends]
  cases hms : m s with
  | value a t =>
    rw [hms] at h
    exact hf a t h
  | failure fault t => rfl
  | timeout => exact absurd hms hends

theorem Outlasts.ite {p : Prop} [Decidable p] {l l' : Eval α} (hl : Outlasts l' l)
    (hm : Outlasts m' m) : Outlasts (if p then l' else m') (if p then l else m) := by
  split
  · exact hl
  · exact hm

theorem Outlasts.nested (hm : Outlasts m' m) : Outlasts (nested m') (nested m) := by
  intro s h
  have hends : m { s with depth := s.depth + 1 } ≠ .timeout := fun hm => h (by rw [Eval.nested, hm])
  rw [Eval.nested, Eval.nested, hm _ hends]

end Basic

/-! ## One step -/

def outlasting (e : FrameRef) : Logic where
  Index := Bool
  frame := e
  place _ := id
  rename _ := id
  Valid _ m := Outlasts (m true) (m false)
  pure _ := .refl _
  bind hm hf := .bind hm fun a => by
    simpa only [Result.rename_id] using hf () a trivial fun _ _ => trivial
  raise _ _ := .refl _
  lookup _ := .refl _
  property _ _ := .refl _
  array _ := .refl _
  compare _ _ _ _ := .refl _
  display _ := .refl _
  assign _ _ := .refl _
  setProperty _ _ _ := .refl _
  addArray _ := .refl _
  addObject _ := .refl _
  addClosure _ := .refl _
  addPush _ := .refl _
  addMethod _ _ := .refl _

section Step

variable {call call' : Function → FrameRef → Position → Eval Value}
  {evaluate evaluate' : Node → FrameRef → Eval Value} {e : FrameRef}

def outlastingCalls (hcall : ∀ f frame p, Outlasts (call' f frame p) (call f frame p)) :
    Calls (outlasting e) (both call call') :=
  .ofPlace (fun _ => rfl) (fun _ _ => True) (fun _ _ => trivial)
    (fun _ hk => Outlasts.bind (.refl _) fun _ => hk _ trivial)
    fun _ _ _ _ _ _ _ => Outlasts.bind (.refl _) fun inner => hcall _ inner _

theorem whileTruthy_outlasts {condition condition' body body' : Eval Value}
    (hcondition : Outlasts condition' condition) (hbody : Outlasts body' body) {n n' : Nat}
    (h : n ≤ n') : Outlasts (whileTruthy condition' body' n') (whileTruthy condition body n) := by
  induction n generalizing n' with
  | zero => exact .timeout _
  | succ n ih =>
    obtain ⟨n', rfl⟩ := Nat.exists_eq_add_of_le' (Nat.zero_lt_of_lt h)
    refine .bind hcondition fun v => .ite ?_ (.refl _)
    exact .bind (.bind hbody fun _ => .refl _) fun _ => ih (Nat.le_of_succ_le_succ h)

variable (hev : ∀ node frame, Outlasts (evaluate' node frame) (evaluate node frame))

include hev

theorem invoke_outlasts (settings : Settings) (f : Function) (frame : FrameRef) (p : Position) :
    Outlasts (invoke settings evaluate' f frame p) (invoke settings evaluate f frame p) := by
  refine .bind (.refl _) fun s => .ite (.refl _) ?_
  refine .nested (.bind (.refl _) fun _ => .bind (.refl _) fun _ => .bind (.refl _) fun _ => ?_)
  cases f.code with
  | closure outer body => exact .bind (.refl _) fun _ => hev body frame
  | builtin b => exact .refl _

theorem branches_outlasts {otherwise otherwise' : Eval Value}
    (ho : Outlasts otherwise' otherwise) (tried : List (Node × Node)) :
    Outlasts (branches evaluate' e otherwise' tried) (branches evaluate e otherwise tried) := by
  have h : (outlasting e).Valid () fun i => branches (both evaluate evaluate' i) e
      (both otherwise otherwise' i) (relocateBranches id tried) := by
    rw [relocateBranches_eq_map]
    exact branches_valid (fun _ _ => ho) fun _ _ node _ => hev (node.relocate id) e
  rwa [relocateBranches_id] at h

theorem fold_outlasts (n : Int64) (rest : List (ArithmeticOperator × Node)) :
    Outlasts (fold evaluate' e n rest) (fold evaluate e n rest) := by
  have h : (outlasting e).Valid () fun i => fold (both evaluate evaluate' i) e n
      (relocateLabelled id rest) := by
    rw [relocateLabelled_eq_map]
    exact fold_valid n (fun _ _ node _ => hev (node.relocate id) e) fun _ _ => trivial
  rwa [relocateLabelled_id] at h

/-- A step outlasts another if its invocations and the steps inside it do, with as many rounds for
loops or more. -/
theorem step_outlasts (hcall : ∀ f frame p, Outlasts (call' f frame p) (call f frame p))
    {n n' : Nat} (h : n ≤ n') (node : Node) :
    Outlasts (step call' evaluate' n' node e) (step call evaluate n node e) := by
  have hstep : (outlasting e).Valid () fun i =>
      step (both call call' i) (both evaluate evaluate' i) (both n n' i) node e :=
    step_valid_of_place (fun _ => rfl) (outlastingCalls hcall).applies
      (fun _ hm hm' => whileTruthy_outlasts (hm () trivial) (hm' () trivial) h) trivial
      fun _ _ child _ => hev child e
  exact hstep

end Step

/-- An evaluation that ends does so in the same way when more steps are allowed. -/
theorem evaluate_outlasts (settings : Settings) {n n' : Nat} (h : n ≤ n') (node : Node)
    (e : FrameRef) : Outlasts (evaluate settings n' node e) (evaluate settings n node e) := by
  induction n generalizing n' node e with
  | zero => exact .timeout _
  | succ n ih =>
    obtain ⟨n', rfl⟩ := Nat.exists_eq_add_of_le' (Nat.zero_lt_of_lt h)
    have hle := Nat.le_of_succ_le_succ h
    exact step_outlasts (ih hle) (invoke_outlasts (ih hle) settings) hle node

/-- An evaluation has one outcome, whatever number of steps is enough for it. -/
theorem evaluate_unique {settings : Settings} {n n' : Nat} {node : Node} {e : FrameRef} {s : State}
    (h : evaluate settings n node e s ≠ .timeout) (h' : evaluate settings n' node e s ≠ .timeout) :
    evaluate settings n node e s = evaluate settings n' node e s := by
  rcases Nat.le_total n n' with hle | hle
  · exact (evaluate_outlasts settings hle node e s h).symm
  · exact evaluate_outlasts settings hle node e s h'

/-! ## Values that are reached -/

/-- From `s`, with enough steps, a computation gives `a` and ends in `t`. -/
def Ends (m : Nat → Eval α) (s : State) (a : α) (t : State) : Prop :=
  ∃ k, ∀ steps, k ≤ steps → m steps s = .value a t

section Ends

variable {s t u : State} {a : α} {b : β}

theorem Ends.of_eq {m : Nat → Eval α} (h : ∀ steps, m steps s = .value a t) : Ends m s a t :=
  ⟨0, fun steps _ => h steps⟩

theorem Ends.bind {m : Nat → Eval α} {f : Nat → α → Eval β} (hm : Ends m s a t)
    (hf : Ends (fun steps => f steps a) t b u) : Ends (fun steps => m steps >>= f steps) s b u := by
  obtain ⟨k, hm⟩ := hm
  obtain ⟨l, hf⟩ := hf
  refine ⟨max k l, fun steps hsteps => ?_⟩
  change (m steps >>= f steps) s = _
  rw [bind_apply, hm steps (by omega)]
  exact hf steps (by omega)

/-- One more step than the parts of a node need is enough for the node. -/
theorem Ends.of_step {settings : Settings} {node : Node} {e : FrameRef} {v : Value}
    (h : Ends (fun steps => step (invoke settings (evaluate settings steps))
      (evaluate settings steps) steps node e) s v t) :
    Ends (fun steps => evaluate settings steps node e) s v t := by
  obtain ⟨k, h⟩ := h
  refine ⟨k + 1, fun steps hsteps => ?_⟩
  obtain ⟨steps, rfl⟩ := Nat.exists_eq_add_of_le' hsteps
  exact h (steps + k) (by omega)

end Ends

end Eval

namespace Program

theorem run_of_ends {settings : Settings} {path source : String} {node : Node}
    {e : FrameRef} {s t : State} {v : Value}
    (hparse : parse source = .ok ⟨.statements [node], .start⟩)
    (h : Eval.Ends (fun steps => Eval.evaluate settings steps node e) (s.emit (.parsed path)) v t) :
    ∃ n, ∀ steps, n ≤ steps →
      run settings steps path source e s = .value v (t.emit (.evaluated path v.type)) := by
  have hstatements : Eval.Ends (fun steps => Eval.evaluate settings steps
      ⟨.statements [node], .start⟩ e) (s.emit (.parsed path)) v t :=
    .of_step (h.bind (.of_eq fun _ => rfl))
  obtain ⟨n, hn⟩ := hstatements
  refine ⟨n, fun steps hsteps => ?_⟩
  have hvalue : Eval.evaluate settings steps ⟨.statements [node], .start⟩ e
      (s.emit (.parsed path)) = .value v t := hn steps hsteps
  rw [run, hparse]
  dsimp only
  rw [hvalue]

end Program

end Scriptlet
