import Scriptlet.Proofs.Eval.Walk
/-!
# What an evaluation does to the state

Every evaluation changes the state in a few ways only. `Change` lists what can be done in a frame
itself, and `Run` adds calls, which run in a frame of their own. Main statement: an evaluation that
ends, with a value or with a fault, was a run (`Eval.evaluate_runs`), so that what a change and a
call preserve is preserved by every evaluation.
-/
namespace Scriptlet

/-- The state that a computation ends in, with a value or with a fault. -/
def Outcome.final? {ε α : Type} : Outcome ε α → Option State
  | .value _ s => some s
  | .failure _ s => some s
  | .timeout => none

/-- The state in which a function's code starts on a frame, for a call at `p`. -/
def State.entered (s : State) (f : Function) (frame : FrameRef) (p : Position) : State where
  store :=
    match f.code with
    | .closure outer _ => (s.store.receiveAll frame f.receivers).appendOuter frame outer
    | .builtin _ => s.store.receiveAll frame f.receivers
  depth := s.depth + 1
  output := s.output
  events := s.events.push (.invoked f.params.length (s.depth + 1) p)

/-- One thing that is done in the frame `e`, apart from calls. -/
inductive Change (e : FrameRef) (s : State) : State → Prop
  /-- A name that is not in scope becomes a variable of the frame. -/
  | declare (name : String) (v : Value) (mutable : Bool) (p : Position) :
      s.store.has e name = false →
      Change e s { s.emit (.declared name mutable p) with
        store := s.store.bind e name ⟨v, mutable⟩ }
  /-- A name in scope is written at its owner. -/
  | assign (name : String) (v : Value) (owner : Owner) : s.store.target e name = .ok owner →
      Change e s { s with store := s.store.write name v owner }
  | setProperty (ref : ObjectRef) (name : String) (v : Value) :
      Change e s { s with store := s.store.setProperty ref name v }
  | pushItem (ref : ArrayRef) (v : Value) :
      Change e s { s with store := s.store.pushItem ref v }
  | addArray (items : Array Value) :
      Change e s { s with store := (s.store.addArray items).2 }
  | addObject (properties : Table Value) :
      Change e s { s with store := (s.store.addObject properties).2 }
  /-- A function that is written in the frame. -/
  | addClosure (params : List Parameter) (body : Node) :
      Change e s { s with store := (s.store.addFunction { params, code := .closure e body }).2 }
  /-- A function that remembers one more value that it is taken from. -/
  | addMethod (ref : FunctionRef) (receiver : Value) :
      Change e s { s with store := (s.store.addFunction
        { s.store.function ref with
          receivers := receiver :: (s.store.function ref).receivers }).2 }
  /-- The function that arrays have. -/
  | addPush : Change e s { s with store := (s.store.addFunction Builtin.push.function).2 }
  /-- The frame of a call that is refused, since too many are under way. -/
  | addFrame (callee : Value) (params : List Parameter) (values : List Value)
      (line column : Int64) :
      Change e s { s with
        store := (s.store.addFrame (.ofCall callee params values line column)).2 }
  | print (text : String) : Change e s { s with output := s.output ++ text ++ "\n" }

/-- Changes in the frame `e` and calls, one after the other. The arguments of a call are evaluated
in `e`, and its function in a new frame. -/
inductive Run (settings : Settings) : FrameRef → State → State → Prop
  | done {e : FrameRef} {s : State} : Run settings e s s
  | change {e : FrameRef} {s t u : State} : Change e s t → Run settings e t u → Run settings e s u
  | call {e : FrameRef} {s t u w : State} (ref : FunctionRef) (values : List Value)
      (line column : Int64) (p : Position) : Run settings e s t → t.depth < settings.maxDepth →
      Run settings ⟨t.store.frames.size⟩
        (State.entered
          { t with store := (t.store.addFrame
            (.ofCall (.function ref) (s.store.function ref).params values line column)).2 }
          (s.store.function ref) ⟨t.store.frames.size⟩ p) u →
      Run settings e { u with depth := u.depth - 1 } w → Run settings e s w

variable {settings : Settings} {e : FrameRef}

theorem Run.trans {s t u : State} (hst : Run settings e s t) (htu : Run settings e t u) :
    Run settings e s u := by
  induction hst with
  | done => exact htu
  | change hc _ ih => exact .change hc (ih htu)
  | call ref values line column p hargs hdepth hbody _ _ _ ih =>
    exact .call ref values line column p hargs hdepth hbody (ih htu)

theorem Run.single {s t : State} (h : Change e s t) : Run settings e s t :=
  .change h .done

namespace Eval

variable {α β : Type}

/-- From `s` on, the computation is a run in the frame `e`, however it ends. -/
def Runs (settings : Settings) (e : FrameRef) (m : Eval α) (s : State) : Prop :=
  ∀ t, (m s).final? = some t → Run settings e s t

section Basic

variable {s : State}

theorem Runs.pure (a : α) : Runs settings e (Pure.pure a) s := by
  rintro t ⟨⟩
  exact .done

theorem Runs.fail (fault : Fault) : Runs settings e (fail fault : Eval α) s := by
  rintro t ⟨⟩
  exact .done

theorem Runs.lift (x : Except Fault α) : Runs settings e (lift x) s := by
  cases x with
  | ok a => exact .pure a
  | error fault => exact .fail fault

theorem Runs.timeout : Runs settings e (timeout : Eval α) s := by
  rintro t ⟨⟩

theorem final?_bind {m : Eval α} {f : α → Eval β} {u : State}
    (h : ((m >>= f) s).final? = some u) :
    (∃ a t, m s = .value a t ∧ (f a t).final? = some u) ∨ (m s).final? = some u := by
  rw [bind_apply] at h
  cases hm : m s with
  | value a t =>
    rw [hm] at h
    exact .inl ⟨a, t, rfl, h⟩
  | failure fault t =>
    rw [hm] at h
    exact .inr h
  | timeout =>
    rw [hm] at h
    cases h

theorem Runs.of_value {m : Eval α} {a : α} {t : State} (h : Runs settings e m s)
    (hm : m s = .value a t) : Run settings e s t :=
  h t (by rw [hm]; rfl)

theorem Runs.bind {m : Eval α} {f : α → Eval β} (hm : Runs settings e m s)
    (hf : ∀ a t, m s = .value a t → Runs settings e (f a) t) : Runs settings e (m >>= f) s := by
  intro u hu
  rcases final?_bind hu with ⟨a, t, hvalue, hu⟩ | hu
  · exact (hm.of_value hvalue).trans (hf a t hvalue u hu)
  · exact hm u hu

theorem Runs.store_bind {f : Store → Eval β} (h : Runs settings e (f s.store) s) :
    Runs settings e (store >>= f) s :=
  h

theorem Runs.of_change {m : Eval α} {a : α} {t : State} (hm : m s = .value a t)
    (h : Change e s t) : Runs settings e m s := by
  intro u hu
  rw [hm] at hu
  cases hu
  exact .single h

end Basic

/-! ## Variables, properties and provided functions -/

section Primitives

variable {s : State}

theorem lookup_runs (frame : FrameRef) (name : String) (p : Position) :
    Runs settings e (lookup frame name p) s := by
  refine .store_bind ?_
  cases s.store.get? frame name with
  | none => exact .fail _
  | some v => exact .pure v

theorem assign_runs (name : String) (v : Value) (p : Position) :
    Runs settings e (assign e name v p) s := by
  refine .store_bind ?_
  cases h : s.store.target e name with
  | ok owner => exact .of_change rfl (.assign name v owner h)
  | error reason => cases reason <;> exact .fail _

theorem assignOrDeclare_runs (mutable : Bool) (name : String) (v : Value) (p : Position) :
    Runs settings e (assignOrDeclare e mutable name v p) s := by
  refine .store_bind ?_
  cases h : s.store.has e name with
  | true => exact .bind (assign_runs name v p) fun _ _ _ => .pure v
  | false => exact .of_change rfl (.declare name v mutable p h)

theorem callSite_runs (frame : FrameRef) : Runs settings e (callSite frame) s := by
  have hcoordinate : ∀ name t, Runs settings e (coordinate frame name) t := by
    intro name t
    refine .bind (lookup_runs frame name _) fun v t _ => .bind (.lift _) fun n t _ => ?_
    cases Arithmetic.toNat? n with
    | none => exact .fail _
    | some k => exact .pure k
  exact .bind (hcoordinate _ s) fun _ t _ => .bind (hcoordinate _ t) fun _ _ _ => .pure _

theorem writeLine_runs (sink : Sink) (text : String) : Runs settings e (writeLine sink text) s := by
  cases sink with
  | ready => exact .of_change rfl (.print text)
  | closed reason => exact .fail _
  | busy => exact .fail _

theorem builtin_runs (b : Builtin) (frame : FrameRef) :
    Runs settings e (b.run settings frame) s := by
  refine .bind (callSite_runs frame) fun p t _ => ?_
  cases b with
  | puts =>
    refine .bind (lookup_runs frame _ p) fun v t _ => .store_bind ?_
    exact .bind (writeLine_runs _ _) fun _ _ _ => .pure _
  | assert =>
    refine .bind (lookup_runs frame _ p) fun v t _ => ?_
    cases v.truthy with
    | true => exact .pure _
    | false => exact .fail _
  | push =>
    refine .bind (lookup_runs frame _ p) fun receiver t _ => ?_
    refine .bind (lookup_runs frame _ p) fun v t _ => .bind (.lift _) fun ref t _ => ?_
    have hpush : ∀ t, Runs settings e (do modifyStore (·.pushItem ref v); return receiver) t :=
      fun t => .bind (.of_change rfl (.pushItem ref v)) fun _ _ _ => .pure _
    by_cases h : settings.held = some ref
    · simp only [h, if_true]
      exact .bind (.fail _) fun _ t _ => hpush t
    · simp only [h, if_false]
      exact hpush t

end Primitives

/-! ## Calls -/

section Calls

variable {evaluate : Node → FrameRef → Eval Value}
  (hev : ∀ node frame s, Runs settings frame (evaluate node frame) s)

include hev

theorem runCode_run (f : Function) (frame : FrameRef) (p : Position) (s u : State)
    (hu : (runCode settings evaluate f.code frame
      { s with
        store := s.store.receiveAll frame f.receivers
        depth := s.depth + 1
        events := s.events.push (.invoked f.params.length (s.depth + 1) p) }).final? = some u) :
    Run settings frame (s.entered f frame p) u := by
  rw [State.entered]
  cases hf : f.code with
  | closure outer body =>
    rw [hf] at hu
    exact hev body frame _ u hu
  | builtin b =>
    rw [hf] at hu
    exact builtin_runs b frame u hu

omit hev in
theorem final?_nested (m : Eval α) (s : State) :
    (nested m s).final? = (m { s with depth := s.depth + 1 }).final?.map
      fun u => { u with depth := u.depth - 1 } := by
  rw [nested]
  cases m { s with depth := s.depth + 1 } <;> rfl

/-- A function is refused before anything is done, or it is entered and left again. -/
theorem invoke_run (f : Function) (frame : FrameRef) (p : Position) (s t : State)
    (h : (invoke settings evaluate f frame p s).final? = some t) :
    t = s ∨ s.depth < settings.maxDepth ∧
      ∃ u, Run settings frame (s.entered f frame p) u ∧ t = { u with depth := u.depth - 1 } := by
  rw [invoke, bind_apply, get] at h
  dsimp only at h
  by_cases hd : settings.maxDepth ≤ s.depth
  · rw [if_pos hd] at h
    cases h
    exact .inl rfl
  · rw [if_neg hd, final?_nested, Option.map_eq_some_iff] at h
    obtain ⟨u, hu, rfl⟩ := h
    exact .inr ⟨Nat.lt_of_not_le hd, u, runCode_run hev f frame p s u hu, rfl⟩

/-- The call of a function with values: its frame is added, and it is invoked on that. -/
theorem invoke_addFrame_run {ref : FunctionRef} {values : List Value} {line column : Int64}
    {site : Position} {s t w : State} (hst : Run settings e s t)
    (h : ((do
      let frame := .ofCall (.function ref) (s.store.function ref).params values line column
      invoke settings evaluate (s.store.function ref) (← add (·.addFrame frame)) site :
        Eval Value) t).final? = some w) :
    Run settings e s w := by
  rcases invoke_run hev (s.store.function ref) ⟨t.store.frames.size⟩ site _ w h with
    rfl | ⟨hdepth, u, hbody, rfl⟩
  · exact hst.trans (.single (.addFrame _ _ values line column))
  · exact .call ref values line column site hst hdepth hbody .done

end Calls

/-! ## Evaluations -/

def running (settings : Settings) (e : FrameRef) : Logic where
  Index := Unit
  World := State
  frame := e
  place _ := id
  rename _ := id
  Valid s m := Runs settings e (m ()) s
  pure _ := .pure _
  bind hm hf := .bind hm fun a t _ => by
    simpa only [Result.rename_id] using hf t a trivial fun _ _ => trivial
  raise _ _ := .fail _
  lookup _ := lookup_runs e _ _
  property _ _ := .store_bind (.pure _)
  array _ := .store_bind (.pure _)
  compare _ _ _ _ := .store_bind (.lift _)
  display _ := .store_bind (.pure _)
  assign _ _ := assignOrDeclare_runs _ _ _ _
  setProperty name _ _ := .of_change rfl (.setProperty _ name _)
  addArray _ := .bind (.of_change rfl (.addArray _)) fun _ _ _ => .pure _
  addObject _ := .bind (.of_change rfl (.addObject _)) fun _ _ _ => .pure _
  addClosure _ := .bind (.of_change rfl (.addClosure _ _)) fun _ _ _ => .pure _
  addPush _ := .bind (.of_change rfl .addPush) fun _ _ _ =>
    .store_bind (.bind (.of_change rfl (.addMethod _ _)) fun _ _ _ => .pure _)
  addMethod _ _ := .store_bind (.bind (.of_change rfl (.addMethod _ _)) fun _ _ _ => .pure _)

section Evaluations

variable {evaluate : Node → FrameRef → Eval Value}
  (hev : ∀ node frame s, Runs settings frame (evaluate node frame) s)

include hev

/-- The function is read before the arguments are evaluated, and entered after that. -/
theorem applies_runs :
    Applies (running settings e) (fun _ => invoke settings evaluate) fun _ => evaluate := by
  intro s ref callee suffixes site p arguments _ _ _ harguments
  let arguments' := arguments.map (·.relocate id)
  change Runs settings e
    (if arguments'.length < (s.store.function ref).params.length then _ else _) s
  split
  · exact .fail _
  · have hargs : Runs settings e
        (evaluateAll evaluate e (arguments'.take (s.store.function ref).params.length)) s := by
      rw [← List.map_take]
      exact evaluateAll_valid (harguments.mono fun _ hnode => List.mem_of_mem_take hnode)
    intro w hw
    rcases final?_bind hw with ⟨values, t, hvalues, hw⟩ | hw
    · have hst := hargs.of_value hvalues
      rcases final?_bind hw with ⟨line, t', hline, hw⟩ | hw
      · have hst := hst.trans (Runs.of_value (.lift _) hline)
        rcases final?_bind hw with ⟨column, t'', hcolumn, hw⟩ | hw
        · exact invoke_addFrame_run hev (hst.trans (Runs.of_value (.lift _) hcolumn)) hw
        · exact hst.trans (Runs.lift _ w hw)
      · exact hst.trans (Runs.lift _ w hw)
    · exact hargs w hw

theorem step_runs (rounds : Nat) (node : Node) (s : State) :
    Runs settings e (step (invoke settings evaluate) evaluate rounds node e) s :=
  step_valid_of_place (L := running settings e) (fun _ => rfl) (applies_runs hev)
    (loops_of_timeout (fun _ => Runs.timeout) rounds) trivial fun t _ child _ => hev child e t

end Evaluations

theorem evaluate_runs (settings : Settings) (n : Nat) (node : Node) (e : FrameRef) (s : State) :
    Runs settings e (evaluate settings n node e) s := by
  induction n generalizing node e s with
  | zero => exact .timeout
  | succ n ih => exact step_runs ih n node s

end Eval
end Scriptlet
