import Scriptlet.Proofs.Eval.Run
/-!
# Evaluations that invoke functions differently

One step of evaluation depends on how functions are invoked, so the same program can be evaluated
under another discipline for calls: with another limit on their depth, say, or with a check before
and after each of them. Main statement: where two ways of invoking functions agree, evaluations that
use them agree (`Eval.evaluateWith_agree`). Agreement is stated for a number of calls under way,
since a limit is compared with that number, and it allows the first side to stop early with certain
faults.
-/
namespace Scriptlet

theorem Change.depth_eq {e : FrameRef} {s t : State} (h : Change e s t) : t.depth = s.depth := by
  cases h <;> rfl

theorem Run.depth_eq {settings : Settings} {e : FrameRef} {s t : State}
    (h : Run settings e s t) : t.depth = s.depth := by
  induction h with
  | done => rfl
  | change hc _ ih => exact ih.trans hc.depth_eq
  | call _ _ _ _ _ _ _ _ _ hargs hbody hrest =>
    simp only [State.entered] at hbody
    simp only at hrest
    omega

namespace Eval

variable {α β : Type}

/-- Evaluates a node, where functions are invoked as given. -/
def evaluateWith
    (invoke : (Node → FrameRef → Eval Value) → Function → FrameRef → Position → Eval Value) :
    Nat → Node → FrameRef → Eval Value
  | 0, _, _ => timeout
  | n + 1, node, frame =>
    step (invoke (evaluateWith invoke n)) (evaluateWith invoke n) n node frame

theorem evaluate_eq_evaluateWith (settings : Settings) :
    evaluate settings = evaluateWith (invoke settings) := by
  funext n
  induction n with
  | zero => rfl
  | succ n ih =>
    funext node frame
    rw [evaluate, evaluateWith, ih]

/-- With `d` calls under way, the first computation ends as the second does, or with a fault of
`bad`; however it ends, `d` calls are under way again. -/
def AgreeAt (bad : Fault → Prop) (d : Nat) (m m' : Eval α) : Prop :=
  ∀ s, s.depth = d →
    (m s = m' s ∨ ∃ fault t, bad fault ∧ m s = .failure fault t) ∧
    ∀ t, (m s).final? = some t → t.depth = d

variable {bad : Fault → Prop} {d : Nat}

theorem AgreeAt.bind {m m' : Eval α} {f f' : α → Eval β} (hm : AgreeAt bad d m m')
    (hf : ∀ a, AgreeAt bad d (f a) (f' a)) : AgreeAt bad d (m >>= f) (m' >>= f') := by
  intro s hs
  obtain ⟨hsame, hdepth⟩ := hm s hs
  rw [bind_apply, bind_apply]
  rcases hsame with hsame | ⟨fault, t, hbad, hstop⟩
  · rw [← hsame]
    cases hms : m s with
    | value a t => exact hf a t (hdepth t (by rw [hms]; rfl))
    | failure fault t => exact ⟨.inl rfl, fun u hu => hdepth u (by rw [hms]; exact hu)⟩
    | timeout => exact ⟨.inl rfl, fun u hu => by cases hu⟩
  · rw [hstop]
    exact ⟨.inr ⟨fault, t, hbad, rfl⟩, fun u hu => hdepth u (by rw [hstop]; exact hu)⟩

theorem AgreeAt.of_runs {m : Eval α} (settings : Settings) (e : FrameRef)
    (h : ∀ s, Runs settings e m s) : AgreeAt bad d m m := by
  intro s hs
  refine ⟨.inl rfl, fun t ht => ?_⟩
  rw [(h s t ht).depth_eq, hs]

theorem AgreeAt.pure (a : α) : AgreeAt bad d (Pure.pure a) (Pure.pure a) :=
  .of_runs {} ⟨0⟩ fun _ => .pure a

theorem AgreeAt.lift (x : Except Fault α) : AgreeAt bad d (lift x) (lift x) :=
  .of_runs {} ⟨0⟩ fun _ => .lift x

theorem AgreeAt.raise (cause : Fault.Cause) (p : Position) :
    AgreeAt bad d (raise cause p : Eval α) (raise cause p) :=
  .of_runs {} ⟨0⟩ fun _ => .fail _

theorem AgreeAt.timeout : AgreeAt bad d (timeout : Eval α) timeout :=
  .of_runs {} ⟨0⟩ fun _ => .timeout

theorem AgreeAt.store_bind {f f' : Store → Eval α}
    (hf : ∀ store, AgreeAt bad d (f store) (f' store)) :
    AgreeAt bad d (store >>= f) (store >>= f') :=
  fun s hs => hf s.store s hs

theorem AgreeAt.modifyStore (change : Store → Store) :
    AgreeAt bad d (modifyStore change) (modifyStore change) := by
  intro s hs
  refine ⟨.inl rfl, fun t ht => ?_⟩
  cases ht
  exact hs

theorem AgreeAt.add (change : Store → α × Store) : AgreeAt bad d (add change) (add change) := by
  intro s hs
  refine ⟨.inl rfl, fun t ht => ?_⟩
  cases ht
  exact hs

theorem AgreeAt.nested {m m' : Eval α} (h : AgreeAt bad (d + 1) m m') :
    AgreeAt bad d (nested m) (nested m') := by
  intro s hs
  obtain ⟨hsame, hdepth⟩ := h { s with depth := s.depth + 1 } (by rw [hs])
  constructor
  · rw [Eval.nested, Eval.nested]
    rcases hsame with hsame | ⟨fault, t, hbad, hstop⟩
    · exact .inl (by rw [hsame])
    · exact .inr ⟨fault, _, hbad, by rw [hstop]⟩
  · intro t ht
    rw [final?_nested, Option.map_eq_some_iff] at ht
    obtain ⟨u, hu, rfl⟩ := ht
    simp only [hdepth u hu, Nat.add_sub_cancel]

/-! ## Calls -/

/-- Invokes a function as `invoke` does, with a watch kept on what its code does. -/
def invokeWatched (watch : Code → Eval Value → Eval Value) (settings : Settings)
    (evaluate : Node → FrameRef → Eval Value) (f : Function) (frame : FrameRef) (p : Position) :
    Eval Value := do
  if settings.maxDepth ≤ (← get).depth then
    raise (.callDepthExceeded settings.maxDepth) p
  else nested do
    emit (.invoked f.params.length (← get).depth p)
    modifyStore (·.receiveAll frame f.receivers)
    watch f.code (runCode settings evaluate f.code frame)

theorem invokeWatched_eq_invoke (settings : Settings) :
    invokeWatched (fun _ m => m) settings = invoke settings := rfl

section Calls

variable {settings settings' : Settings} {evaluate evaluate' : Node → FrameRef → Eval Value}

/-- Invocations agree if what the code does agrees one call deeper, and if a lower limit of the
first one counts among the faults that it may stop with. -/
theorem invokeWatched_agree (watch watch' : Code → Eval Value → Eval Value) {f : Function}
    {frame : FrameRef} {p : Position} (hlimit : settings.maxDepth ≤ settings'.maxDepth)
    (hbad : settings.maxDepth < settings'.maxDepth →
      bad (.raised (.callDepthExceeded settings.maxDepth) p))
    (hcode : d < settings.maxDepth →
      AgreeAt bad (d + 1) (watch f.code (runCode settings evaluate f.code frame))
        (watch' f.code (runCode settings' evaluate' f.code frame))) :
    AgreeAt bad d (invokeWatched watch settings evaluate f frame p)
      (invokeWatched watch' settings' evaluate' f frame p) := by
  intro s hs
  rw [invokeWatched, invokeWatched, bind_apply, bind_apply, get]
  dsimp only
  by_cases hstop : settings.maxDepth ≤ s.depth
  · rw [if_pos hstop]
    refine ⟨?_, fun t ht => ?_⟩
    · rcases Nat.eq_or_lt_of_le hlimit with heq | hlt
      · rw [heq] at hstop ⊢
        rw [if_pos hstop]
        exact .inl rfl
      · exact .inr ⟨_, s, hbad hlt, rfl⟩
    · cases ht
      exact hs
  · have hstop' : ¬ settings'.maxDepth ≤ s.depth := by omega
    rw [if_neg hstop, if_neg hstop']
    refine AgreeAt.nested ?_ s hs
    intro t ht
    exact hcode (by omega) _ ht

theorem builtin_run_congr (hsink : settings.sink = settings'.sink)
    (hheld : settings.held = settings'.held) (b : Builtin) (frame : FrameRef) :
    b.run settings frame = b.run settings' frame := by
  rw [Builtin.run, Builtin.run, hsink, hheld]

theorem runCode_agree (hsink : settings.sink = settings'.sink)
    (hheld : settings.held = settings'.held)
    (hev : ∀ node e, AgreeAt bad d (evaluate node e) (evaluate' node e)) (code : Code)
    (frame : FrameRef) :
    AgreeAt bad d (runCode settings evaluate code frame)
      (runCode settings' evaluate' code frame) := by
  cases code with
  | closure outer body => exact .bind (.modifyStore _) fun _ => hev body frame
  | builtin b =>
    rw [runCode, runCode, builtin_run_congr hsink hheld]
    exact .of_runs settings' frame fun _ => builtin_runs b frame

end Calls

/-! ## One step -/

def agreeing (bad : Fault → Prop) (d : Nat) (e : FrameRef) : Logic where
  Index := Bool
  frame := e
  place _ := id
  rename _ := id
  Valid _ m := AgreeAt bad d (m false) (m true)
  pure a := .pure _
  bind hm hf := .bind hm fun a => by
    simpa only [Result.rename_id] using hf () a trivial fun _ _ => trivial
  raise cause _ := .raise cause _
  lookup h := .of_runs {} e fun s => (running {} e).lookup h
  property _ h := .of_runs {} e fun s => (running {} e).property _ h
  array h := .of_runs {} e fun s => (running {} e).array h
  compare _ _ _ _ := .store_bind fun _ => .lift _
  display _ := .store_bind fun _ => .pure _
  assign _ _ := .of_runs {} e fun _ => assignOrDeclare_runs _ _ _ _
  setProperty _ _ _ := .modifyStore _
  addArray _ := .bind (.add _) fun _ => .pure _
  addObject _ := .bind (.add _) fun _ => .pure _
  addClosure _ := .bind (.add _) fun _ => .pure _
  addPush _ := .bind (.add _) fun _ => .store_bind fun _ => .bind (.add _) fun _ => .pure _
  addMethod _ _ := .store_bind fun _ => .bind (.add _) fun _ => .pure _

section Step

variable {call call' : Function → FrameRef → Position → Eval Value}
  {evaluate evaluate' : Node → FrameRef → Eval Value} {e : FrameRef}
  (hcall : ∀ f frame p, AgreeAt bad d (call f frame p) (call' f frame p))

def agreeingCalls : Calls (agreeing bad d e) (both call call') :=
  .ofPlace (fun _ => rfl) (fun _ _ => True) (fun _ _ => trivial)
    (fun _ hk => AgreeAt.store_bind fun _ => hk _ trivial)
    fun _ _ _ _ _ _ _ => AgreeAt.bind (.add _) fun inner => hcall _ inner _

include hcall

theorem step_agree (hev : ∀ node frame, AgreeAt bad d (evaluate node frame) (evaluate' node frame))
    (rounds : Nat) (node : Node) :
    AgreeAt bad d (step call evaluate rounds node e) (step call' evaluate' rounds node e) := by
  have hstep : (agreeing bad d e).Valid () fun i =>
      step (both call call' i) (both evaluate evaluate' i) rounds node e :=
    step_valid_of_place (fun _ => rfl) (agreeingCalls hcall).applies
      (loops_of_timeout (fun _ => AgreeAt.timeout) rounds) trivial fun _ _ child _ => hev child e
  exact hstep

end Step

/-- Evaluations agree if their ways of invoking functions do, as soon as the evaluations inside
these agree. All numbers of calls that the argument passes through are in `range`. -/
theorem evaluateWith_agree (range : Nat → Prop)
    {invoke invoke' :
      (Node → FrameRef → Eval Value) → Function → FrameRef → Position → Eval Value}
    (hinvoke : ∀ evaluate evaluate',
      (∀ d, range d → ∀ node e, AgreeAt bad d (evaluate node e) (evaluate' node e)) →
      ∀ d, range d → ∀ f frame p,
        AgreeAt bad d (invoke evaluate f frame p) (invoke' evaluate' f frame p))
    (n d : Nat) (hd : range d) (node : Node) (e : FrameRef) :
    AgreeAt bad d (evaluateWith invoke n node e) (evaluateWith invoke' n node e) := by
  induction n generalizing d node e with
  | zero => exact .timeout
  | succ n ih => exact step_agree (hinvoke _ _ ih d hd) (fun node e => ih d hd node e) n node

end Eval
end Scriptlet
