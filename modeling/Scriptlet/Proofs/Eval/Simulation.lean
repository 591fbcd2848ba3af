import Scriptlet.Proofs.Eval.Run
/-!
# Evaluations side by side

Two evaluations of the same tree are followed side by side, from two states that belong together.
What is known about them is a world, and worlds only move forward. Here is the part of the argument
that is the same whatever the states have in common: how the constructs of the language pass from
one world to the next. What is particular, what single reads and writes of the store and entering a
function do, is the content of a `Simulation`. Main statements: one step of evaluation matches
another if the steps inside do (`Eval.step_matches`), and so evaluations match
(`Eval.evaluate_matches`).

An evaluation can also be compared with itself. Then the worlds tell what it does.
-/
namespace Scriptlet

def Builtin.reads (b : Builtin) : List String :=
  [Frame.lineName, Frame.columnName, Frame.thisName, b.parameterName]

/-- The state in which a function's code starts that is called with values, in a frame of its
own. -/
def State.called (s : State) (callee : Value) (f : Function) (values : List Value)
    (line column : Int64) (p : Position) : State :=
  let store := (s.store.addFrame (.ofCall callee f.params values line column)).2
  State.entered { s with store } f ⟨s.store.frames.size⟩ p

def State.left (s : State) : State :=
  { s with depth := s.depth - 1 }

def Outcome.left {ε α : Type} : Outcome ε α → Outcome ε α
  | .value a s => .value a s.left
  | .failure e s => .failure e s.left
  | .timeout => .timeout

/-- What two evaluations have to do with one another. The second one may use other references to
functions. -/
structure Comparison where
  World : Type
  /-- The state of the first evaluation. -/
  state : World → State
  /-- The states that the second evaluation may be in. -/
  Mate : World → State → Prop
  Later : World → World → Prop
  /-- What the first evaluation has got hold of. -/
  Knows : World → Location → Prop
  /-- The names that are looked up. -/
  Reads : String → Prop
  /-- The trees that are evaluated. -/
  Evaluates : World → Node → Prop
  /-- A value is called as the given function. -/
  Calls : World → Value → Function → Prop
  rename : FunctionRef → FunctionRef

namespace Comparison

variable {α β : Type} (C : Comparison)

def Holds [Result α] (w : C.World) (a : α) : Prop :=
  ∀ l ∈ Result.locations a, C.Knows w l

/-- A result of the first evaluation and the one that belongs to it in the second. -/
structure Pair [Result α] (w : C.World) (a a' : α) : Prop where
  eq : a' = Result.rename C.rename a
  holds : C.Holds w a

structure FunctionPair (w : C.World) (ref ref' : FunctionRef) : Prop where
  eq : ref' = C.rename ref
  knows : C.Knows w (.function ref)

/-- The ends of two computations from a world on: both with a value, both with the same fault, or
both out of steps. -/
inductive Ends (w : C.World) (rel : C.World → α → β → Prop) :
    Outcome Fault α → Outcome Fault β → Prop
  | value {w' : C.World} {a : α} {b : β} {s : State} : C.Later w w' → C.Mate w' s → rel w' a b →
      Ends w rel (.value a (C.state w')) (.value b s)
  | failure {w' : C.World} {s : State} (fault : Fault) : C.Later w w' → C.Mate w' s →
      Ends w rel (.failure fault (C.state w')) (.failure fault s)
  | timeout : Ends w rel .timeout .timeout

def Matches (w : C.World) (rel : C.World → α → β → Prop) (m : Eval α) (m' : Eval β) : Prop :=
  ∀ s, C.Mate w s → C.Ends w rel (m (C.state w)) (m' s)

/-- The world `inner` of a call that was made in `w`: what comes after it comes after `w` as soon
as the call is left. -/
def Returns (w inner : C.World) : Prop :=
  ∀ w', C.Later inner w' → ∃ w'', C.Later w w'' ∧ C.state w'' = (C.state w').left ∧
    (∀ s, C.Mate w' s → C.Mate w'' s.left) ∧ ∀ v : Value, C.Holds w' v → C.Holds w'' v

end Comparison

/-- A comparison that reads and writes of the store and calls keep up. -/
structure Simulation extends Comparison where
  later_refl : ∀ w, Later w w
  later_trans : ∀ {w w' w''}, Later w w' → Later w' w'' → Later w w''
  knows_later : ∀ {w w' l}, Later w w' → Knows w l → Knows w' l
  evaluates_later : ∀ {w w' node}, Later w w' → Evaluates w node → Evaluates w' node
  calls_later : ∀ {w w' callee f}, Later w w' → Calls w callee f → Calls w' callee f
  evaluates_child : ∀ {w} {node child : Node}, Evaluates w node → child ∈ node.kind.children →
    Evaluates w child
  reads_identifier : ∀ {w name p}, Evaluates w ⟨.identifier name, p⟩ → Reads name
  reads_builtin : ∀ (b : Builtin), ∀ name ∈ b.reads, Reads name
  -- What is read.
  counts : ∀ {w s}, Mate w s → s.depth = (state w).depth ∧
    s.store.frames.size = (state w).store.frames.size
  lookup : ∀ {w s e name}, Mate w s → Knows w (.frame e) → Reads name →
    s.store.get? e name = ((state w).store.get? e name).map (·.rename rename) ∧
    ∀ v, (state w).store.get? e name = some v → toComparison.Holds w v
  property : ∀ {w s ref} name, Mate w s → Knows w (.object ref) →
    (s.store.object ref).get? name =
      (((state w).store.object ref).get? name).map (·.rename rename) ∧
    ∀ v, ((state w).store.object ref).get? name = some v → toComparison.Holds w v
  array : ∀ {w s ref}, Mate w s → Knows w (.array ref) →
    s.store.array ref = ((state w).store.array ref).map (·.rename rename) ∧
    ∀ v ∈ ((state w).store.array ref).toList, toComparison.Holds w v
  function : ∀ {w s ref}, Mate w s → Knows w (.function ref) →
    s.store.function (rename ref) = ((state w).store.function ref).rename rename ∧
    Calls w (.function ref) ((state w).store.function ref)
  compare : ∀ {w s} {a b a' b' : Value} op p, Mate w s → toComparison.Pair w a a' →
    toComparison.Pair w b b' → s.store.compare op a' b' p = (state w).store.compare op a b p
  display : ∀ {w s} {v v' : Value}, Mate w s → toComparison.Pair w v v' →
    s.store.display v' = (state w).store.display v
  -- What is written.
  assign : ∀ {w e mutable name value p} {v v' : Value}, Knows w (.frame e) →
    Evaluates w ⟨.assignment mutable name value, p⟩ → toComparison.Pair w v v' →
    toComparison.Matches w toComparison.Pair (Eval.assignOrDeclare e mutable name v p)
      (Eval.assignOrDeclare e mutable name v' p)
  setProperty : ∀ {w ref} {v v' : Value} name, Knows w (.object ref) → toComparison.Pair w v v' →
    toComparison.Matches w (fun _ _ _ => True) (Eval.modifyStore (·.setProperty ref name v))
      (Eval.modifyStore (·.setProperty ref name v'))
  pushItem : ∀ {w ref} {v v' : Value}, Knows w (.array ref) → toComparison.Pair w v v' →
    toComparison.Matches w (fun _ _ _ => True) (Eval.modifyStore (·.pushItem ref v))
      (Eval.modifyStore (·.pushItem ref v'))
  print : ∀ {w} text, toComparison.Matches w (fun _ _ _ => True) (Eval.writeLine .ready text)
    (Eval.writeLine .ready text)
  addArray : ∀ {w} {values values' : List Value}, toComparison.Pair w values values' →
    toComparison.Matches w (fun w ref ref' => ref' = ref ∧ Knows w (.array ref))
      (Eval.add (·.addArray values.toArray)) (Eval.add (·.addArray values'.toArray))
  addObject : ∀ {w} {entries entries' : List (String × Value)},
    toComparison.Pair w entries entries' →
    toComparison.Matches w (fun w ref ref' => ref' = ref ∧ Knows w (.object ref))
      (Eval.add (·.addObject (.ofList entries))) (Eval.add (·.addObject (.ofList entries')))
  addClosure : ∀ {w e params body p}, Knows w (.frame e) → Evaluates w ⟨.function params body, p⟩ →
    toComparison.Matches w toComparison.FunctionPair
      (Eval.add (·.addFunction { params, code := .closure e body }))
      (Eval.add (·.addFunction { params, code := .closure e body }))
  addPush : ∀ {w}, toComparison.Matches w toComparison.FunctionPair
    (Eval.add (·.addFunction Builtin.push.function))
    (Eval.add (·.addFunction Builtin.push.function))
  addMethod : ∀ {w s ref} {v v' : Value}, Mate w s → Knows w (.function ref) →
    toComparison.Pair w v v' →
    let f := (state w).store.function ref
    let f' := s.store.function (rename ref)
    toComparison.Matches w toComparison.FunctionPair
      (Eval.add (·.addFunction { f with receivers := v :: f.receivers }))
      (Eval.add (·.addFunction { f' with receivers := v' :: f'.receivers }))
  -- Calls.
  refuse : ∀ {w callee f} {values values' : List Value} (line column : Int64), Calls w callee f →
    toComparison.Holds w callee → toComparison.Pair w values values' →
    toComparison.Matches w (fun _ _ _ => True)
      (Eval.add (·.addFrame (.ofCall callee f.params values line column)))
      (Eval.add (·.addFrame (.ofCall (callee.rename rename) f.params values' line column)))
  enter : ∀ {w s callee f} {values values' : List Value} (line column : Int64) (p : Position),
    Mate w s → Calls w callee f → toComparison.Holds w callee → toComparison.Pair w values values' →
    ∃ inner, state inner = (state w).called callee f values line column p ∧
      Mate inner (s.called (callee.rename rename) (f.rename rename) values' line column p) ∧
      Knows inner (.frame ⟨(state w).store.frames.size⟩) ∧
      (∀ outer body, f.code = .closure outer body → Evaluates inner body) ∧
      toComparison.Returns w inner

/-! ## Values that belong together -/

namespace Comparison

variable {α : Type} [Result α] {C : Comparison} {w : C.World} {v v' : Value}

theorem Pair.truthy_eq (h : C.Pair w v v') : v'.truthy = v.truthy := by
  rw [h.eq]
  exact v.truthy_rename C.rename

theorem Pair.toInteger_eq (h : C.Pair w v v') (p : Position) :
    v'.toInteger p = v.toInteger p := by
  rw [h.eq]
  exact v.toInteger_rename C.rename p

theorem pair_rename {a : α} (ha : C.Holds w a) :
    C.Pair w (Result.rename id a) (Result.rename C.rename a) := by
  rw [Result.rename_id]
  exact ⟨rfl, ha⟩

theorem holds_of_locations {a : α} (h : Result.locations a = []) : C.Holds w a := by
  intro l hl
  rw [h] at hl
  cases hl

theorem pair_self (h : v.locations = []) : C.Pair w v v where
  eq := by cases v <;> first | rfl | cases h
  holds := holds_of_locations h

theorem FunctionPair.value {ref ref' : FunctionRef} (h : C.FunctionPair w ref ref') :
    C.Pair w (Value.function ref) (Value.function ref') where
  eq := congrArg Value.function h.eq
  holds := List.forall_mem_singleton.2 h.knows

theorem pair_array {ref : ArrayRef} (h : C.Knows w (.array ref)) :
    C.Pair w (Value.array ref) (Value.array ref) :=
  ⟨rfl, List.forall_mem_singleton.2 h⟩

theorem pair_object {ref : ObjectRef} (h : C.Knows w (.object ref)) :
    C.Pair w (Value.object ref) (Value.object ref) :=
  ⟨rfl, List.forall_mem_singleton.2 h⟩

theorem Holds.knows_array {ref : ArrayRef} (h : C.Holds w (Value.array ref)) :
    C.Knows w (.array ref) :=
  h _ List.mem_cons_self

structure IsSelf (C : Comparison) : Prop where
  rename : C.rename = id
  mate : ∀ {w s}, C.Mate w s → s = C.state w

namespace IsSelf

variable (hC : C.IsSelf)

include hC

theorem eq_of_pair {a a' : α} (h : C.Pair w a a') : a' = a := by
  rw [h.eq, hC.rename, Result.rename_id]

theorem eq_of_ends {x y : Outcome Fault Value} (h : C.Ends w C.Pair x y) : y = x := by
  cases h with
  | value _ hmate hpair => rw [hC.mate hmate, hC.eq_of_pair hpair]
  | failure fault _ hmate => rw [hC.mate hmate]
  | timeout => rfl

end IsSelf

end Comparison

namespace Simulation

open Comparison

variable {α β γ δ : Type} {S : Simulation} {w w' : S.World} {rel : S.World → α → β → Prop}
  {rel' : S.World → γ → δ → Prop}

theorem holds_later {v : Value} (h : S.Later w w') (hv : S.Holds w v) : S.Holds w' v :=
  fun l hl => S.knows_later h (hv l hl)

theorem pair_later {v v' : Value} (h : S.Later w w') (hv : S.Pair w v v') : S.Pair w' v v' :=
  ⟨hv.eq, holds_later h hv.holds⟩

/-! ## Computations -/

theorem ends_later {x : Outcome Fault α} {y : Outcome Fault β} (hlater : S.Later w w')
    (h : S.Ends w' rel x y) : S.Ends w rel x y := by
  cases h with
  | value hlater' hmate hrel => exact .value (S.later_trans hlater hlater') hmate hrel
  | failure fault hlater' hmate => exact .failure fault (S.later_trans hlater hlater') hmate
  | timeout => exact .timeout

theorem matches_pure {a : α} {b : β} (h : rel w a b) :
    S.Matches w rel (Pure.pure a) (Pure.pure b) :=
  fun _ hs => .value (S.later_refl w) hs h

theorem matches_fail (fault : Fault) : S.Matches w rel (Eval.fail fault) (Eval.fail fault) :=
  fun _ hs => .failure fault (S.later_refl w) hs

theorem matches_timeout : S.Matches w rel Eval.timeout Eval.timeout :=
  fun _ _ => .timeout

theorem matches_bind {m : Eval α} {m' : Eval β} {f : α → Eval γ} {f' : β → Eval δ}
    (hm : S.Matches w rel m m')
    (hf : ∀ w' a b, S.Later w w' → rel w' a b → S.Matches w' rel' (f a) (f' b)) :
    S.Matches w rel' (m >>= f) (m' >>= f') := by
  intro s hs
  have hms := hm s hs
  rw [Eval.bind_apply, Eval.bind_apply]
  generalize m (S.state w) = x at hms
  generalize m' s = y at hms
  cases hms with
  | value hlater hmate hrel => exact ends_later hlater (hf _ _ _ hlater hrel _ hmate)
  | failure fault hlater hmate => exact .failure fault hlater hmate
  | timeout => exact .timeout

theorem matches_lift_bind (x : Except Fault α) {f : α → Eval γ} {f' : α → Eval δ}
    (hf : ∀ a, x = .ok a → S.Matches w rel' (f a) (f' a)) :
    S.Matches w rel' (Eval.lift x >>= f) (Eval.lift x >>= f') := by
  cases x with
  | ok a => exact hf a rfl
  | error fault => exact matches_fail fault

theorem matches_lift {x x' : Except Fault Bool} (h : x' = x) :
    S.Matches w S.Pair (Eval.lift x) (Eval.lift x') := by
  subst h
  cases x' with
  | ok b => exact matches_pure ⟨rfl, holds_of_locations rfl⟩
  | error fault => exact matches_fail fault

theorem matches_store_bind {f : Store → Eval γ} {f' : Store → Eval δ}
    (hf : ∀ s, S.Mate w s → S.Matches w rel' (f (S.state w).store) (f' s.store)) :
    S.Matches w rel' (Eval.store >>= f) (Eval.store >>= f') :=
  fun s hs => hf s hs s hs

end Simulation

namespace Eval

open Comparison Simulation

variable {S : Simulation} {w : S.World} {e : FrameRef} {v v' : Value}

/-! ## Variables, properties and provided functions -/

theorem lookup_matches {name : String} (he : S.Knows w (.frame e)) (hname : S.Reads name)
    (p : Position) : S.Matches w S.Pair (lookup e name p) (lookup e name p) := by
  refine matches_store_bind fun s hs => ?_
  obtain ⟨hsame, hholds⟩ := S.lookup hs he hname
  rw [hsame]
  cases h : (S.state w).store.get? e name with
  | none => exact matches_fail _
  | some v => exact matches_pure ⟨rfl, hholds v h⟩

theorem callSite_matches (b : Builtin) (he : S.Knows w (.frame e)) :
    S.Matches w (fun _ p p' => p' = p) (callSite e) (callSite e) := by
  have hcoordinate : ∀ w name, S.Knows w (.frame e) → name ∈ b.reads →
      S.Matches w (fun _ n n' => n' = n) (coordinate e name) (coordinate e name) := by
    intro w name he hname
    refine matches_bind (lookup_matches he (S.reads_builtin b name hname) _) ?_
    intro w' v v' _ hv
    rw [hv.toInteger_eq]
    refine matches_lift_bind _ fun n _ => ?_
    cases Arithmetic.toNat? n with
    | none => exact matches_fail _
    | some k => exact matches_pure rfl
  refine matches_bind (hcoordinate w _ he (by simp [Builtin.reads])) ?_
  rintro w' line _ hlater rfl
  refine matches_bind (hcoordinate w' _ (S.knows_later hlater he) (by simp [Builtin.reads])) ?_
  rintro w'' column _ - rfl
  exact matches_pure rfl

theorem writeLine_matches (sink : Sink) (text : String) :
    S.Matches w (fun _ _ _ => True) (writeLine sink text) (writeLine sink text) := by
  cases sink with
  | ready => exact S.print text
  | closed reason => exact matches_fail _
  | busy => exact matches_fail _

theorem builtin_matches (settings : Settings) (b : Builtin) (he : S.Knows w (.frame e)) :
    S.Matches w S.Pair (b.run settings e) (b.run settings e) := by
  refine matches_bind (callSite_matches b he) ?_
  rintro w₁ _ p hlater rfl
  have he := S.knows_later hlater he
  have hlookup : ∀ w name, S.Knows w (.frame e) → name ∈ b.reads →
      S.Matches w S.Pair (lookup e name p) (lookup e name p) :=
    fun w name he hname => lookup_matches he (S.reads_builtin b name hname) p
  cases b with
  | puts =>
    refine matches_bind (hlookup w₁ _ he (by simp [Builtin.reads])) fun w₂ v v' _ hv => ?_
    refine matches_store_bind fun s hs => ?_
    rw [S.display hs hv]
    exact matches_bind (writeLine_matches _ _) fun _ _ _ _ _ => matches_pure (pair_self rfl)
  | assert =>
    refine matches_bind (hlookup w₁ _ he (by simp [Builtin.reads])) fun w₂ v v' _ hv => ?_
    rw [hv.truthy_eq]
    cases v.truthy with
    | true => exact matches_pure (pair_self rfl)
    | false => exact matches_fail _
  | push =>
    refine matches_bind (hlookup w₁ _ he (by simp [Builtin.reads])) ?_
    intro w₂ receiver receiver' hlater₂ hreceiver
    have he₂ := S.knows_later hlater₂ he
    refine matches_bind (hlookup w₂ _ he₂ (by simp [Builtin.reads])) fun w₃ v v' hlater₃ hv => ?_
    obtain ⟨rfl, hholds⟩ := pair_later hlater₃ hreceiver
    change S.Matches w₃ S.Pair _ (Eval.lift ((receiver.rename S.rename).toArray p) >>= _)
    rw [Value.toArray_rename]
    refine matches_lift_bind _ fun ref href => ?_
    cases receiver <;> cases href
    by_cases hheld : settings.held = some ref
    · simp only [hheld, if_true]
      exact matches_fail _
    · simp only [hheld, if_false]
      refine matches_bind (S.pushItem hholds.knows_array hv) fun w₄ _ _ hlater₄ _ => ?_
      exact matches_pure ⟨rfl, holds_later hlater₄ hholds⟩

/-! ## Calls -/

section Calls

variable {settings : Settings} {evaluate evaluate' : Node → FrameRef → Eval Value}
  (hev : ∀ w node e, S.Evaluates w node → S.Knows w (.frame e) →
    S.Matches w S.Pair (evaluate node e) (evaluate' node e))

/-- What the code of a function does after it is entered. -/
def runEntered (settings : Settings) (evaluate : Node → FrameRef → Eval Value) (code : Code)
    (frame : FrameRef) : Eval Value :=
  match code with
  | .closure _ body => evaluate body frame
  | .builtin b => b.run settings frame

omit hev in
theorem nested_apply (m : Eval Value) (s : State) :
    nested m s = (m { s with depth := s.depth + 1 }).left := by
  rw [nested]
  cases m { s with depth := s.depth + 1 } <;> rfl

/-- A function is refused if too many calls are under way; the frame of its call stays. -/
theorem invoke_addFrame_of_le {f : Function} {frame : Frame} {p : Position} {s : State}
    (h : settings.maxDepth ≤ s.depth) :
    (do invoke settings evaluate f (← add (·.addFrame frame)) p : Eval Value) s =
      .failure (.raised (.callDepthExceeded settings.maxDepth) p)
        { s with store := (s.store.addFrame frame).2 } := by
  change (if settings.maxDepth ≤ s.depth then _ else _ : Eval Value) _ = _
  rw [if_pos h]
  rfl

theorem invoke_addFrame_of_lt {callee : Value} {f : Function} {values : List Value}
    {line column : Int64} {p : Position} {s : State} (h : s.depth < settings.maxDepth) :
    (do
      let frame := .ofCall callee f.params values line column
      invoke settings evaluate f (← add (·.addFrame frame)) p : Eval Value) s =
      (runEntered settings evaluate f.code ⟨s.store.frames.size⟩
        (s.called callee f values line column p)).left := by
  change (if settings.maxDepth ≤ s.depth then _ else _ : Eval Value) _ = _
  rw [if_neg (Nat.not_le_of_lt h), nested_apply, State.called, State.entered]
  cases f.code <;> rfl

include hev

theorem runEntered_matches {code : Code} {frame : FrameRef} (hframe : S.Knows w (.frame frame))
    (hbody : ∀ outer body, code = .closure outer body → S.Evaluates w body) :
    S.Matches w S.Pair (runEntered settings evaluate code frame)
      (runEntered settings evaluate' code frame) := by
  cases code with
  | closure outer body => exact hev w body frame (hbody outer body rfl) hframe
  | builtin b => exact builtin_matches settings b hframe

theorem invoke_matches {callee : Value} {f : Function} {values values' : List Value}
    (line column : Int64) (p : Position) (hcalls : S.Calls w callee f) (hcallee : S.Holds w callee)
    (hvalues : S.Pair w values values') :
    S.Matches w S.Pair
      (do
        let frame := .ofCall callee f.params values line column
        invoke settings evaluate f (← add (·.addFrame frame)) p)
      (do
        let frame := .ofCall (callee.rename S.rename) (f.rename S.rename).params values' line column
        invoke settings evaluate' (f.rename S.rename) (← add (·.addFrame frame)) p) := by
  intro s hs
  obtain ⟨hdepth, hsize⟩ := S.counts hs
  by_cases hd : settings.maxDepth ≤ (S.state w).depth
  · rw [invoke_addFrame_of_le hd, invoke_addFrame_of_le (hdepth ▸ hd)]
    have hfail : ∀ w', S.Matches (α := Value) w' S.Pair
        (raise (.callDepthExceeded settings.maxDepth) p)
        (raise (.callDepthExceeded settings.maxDepth) p) := fun w' => matches_fail _
    have hrefuse := matches_bind (S.refuse line column hcalls hcallee hvalues)
      fun w' _ _ _ _ => hfail w'
    exact hrefuse s hs
  · have hd := Nat.lt_of_not_le hd
    obtain ⟨inner, hstate, hmate, hframe, hbody, hreturns⟩ :=
      S.enter line column p hs hcalls hcallee hvalues
    have hcode : S.Matches inner S.Pair (runEntered settings evaluate f.code _)
        (runEntered settings evaluate' f.code _) := runEntered_matches hev hframe hbody
    have hrun := hcode _ hmate
    rw [hstate] at hrun
    rw [invoke_addFrame_of_lt hd, invoke_addFrame_of_lt (hdepth ▸ hd), hsize,
      Function.code_rename]
    generalize runEntered settings evaluate f.code _ _ = x at hrun
    generalize runEntered settings evaluate' f.code _ _ = y at hrun
    cases hrun with
    | value hlater hmate hpair =>
      obtain ⟨w'', hlater, hstate, hmates, hholds⟩ := hreturns _ hlater
      rw [Outcome.left, Outcome.left, ← hstate]
      exact .value hlater (hmates _ hmate) ⟨hpair.eq, hholds _ hpair.holds⟩
    | failure fault hlater hmate =>
      obtain ⟨w'', hlater, hstate, hmates, -⟩ := hreturns _ hlater
      rw [Outcome.left, Outcome.left, ← hstate]
      exact .failure fault hlater (hmates _ hmate)
    | timeout => exact .timeout

end Calls

/-! ## Nodes -/

def matching (S : Simulation) (e : FrameRef) : Logic where
  Index := Bool
  World := { w : S.World // S.Knows w (.frame e) }
  Later w w' := S.Later w.1 w'.1
  Knows w l := S.Knows w.1 l
  Evaluates w node := S.Evaluates w.1 node
  frame := e
  place _ := id
  rename := both id S.rename
  Valid w m := S.Matches w.1 S.Pair (m false) (m true)
  later_refl w := S.later_refl w.1
  later_trans := S.later_trans
  knows_later := S.knows_later
  evaluates_later := S.evaluates_later
  evaluates_child := S.evaluates_child
  pure ha := matches_pure (pair_rename ha)
  bind {_ _ _ _ w _ f} hm hf := matches_bind hm fun w' a a' hlater hpair => by
    obtain ⟨rfl, ha⟩ := hpair
    have h := hf ⟨w', S.knows_later hlater w.2⟩ a hlater ha
    change S.Matches w' S.Pair (f false (Result.rename id a)) _ at h
    rwa [Result.rename_id] at h
  raise cause _ := matches_fail _
  lookup {w _ _} h := lookup_matches w.2 (S.reads_identifier h) _
  property {w ref} name href := matches_store_bind fun s hs => by
    obtain ⟨hsame, hholds⟩ := S.property name hs href
    refine matches_pure ⟨hsame, ?_⟩
    cases h : ((S.state w.1).store.object ref).get? name with
    | none => exact fun l hl => by cases hl
    | some v => exact hholds v h
  array {w ref} href := matches_store_bind fun s hs => by
    obtain ⟨hsame, hholds⟩ := S.array hs href
    refine matches_pure ⟨?_, fun l hl => ?_⟩
    · rw [hsame, Array.toList_map]
      rfl
    · obtain ⟨v, hv, hl⟩ := List.mem_flatMap.1 hl
      exact hholds v hv l hl
  compare op ha hb _ := matches_store_bind fun s hs =>
    matches_lift (S.compare op _ hs (pair_rename ha) (pair_rename hb))
  display hv := matches_store_bind fun s hs =>
    matches_pure ⟨S.display hs (pair_rename hv), holds_of_locations rfl⟩
  assign {w _ _ _ _ _} h hv := S.assign w.2 h (pair_rename hv)
  setProperty name href hv := matches_bind (S.setProperty name href (pair_rename hv))
    fun _ _ _ _ _ => matches_pure ⟨rfl, holds_of_locations rfl⟩
  addArray hvalues := matches_bind (S.addArray (pair_rename hvalues)) fun w' ref _ _ href => by
    obtain ⟨rfl, hknows⟩ := href
    exact matches_pure (pair_array hknows)
  addObject hentries := matches_bind (S.addObject (pair_rename hentries)) fun w' ref _ _ href => by
    obtain ⟨rfl, hknows⟩ := href
    exact matches_pure (pair_object hknows)
  addClosure {w _ body _} h := by
    simp only [Node.relocate_id]
    exact matches_bind (S.addClosure w.2 h) fun w' ref ref' _ href => matches_pure href.value
  addPush href := matches_bind S.addPush fun w' push _ hlater hpush => by
    obtain ⟨rfl, hknows⟩ := hpush
    have hreceiver := pair_array (S.knows_later hlater href)
    exact matches_store_bind fun s hs => matches_bind (S.addMethod hs hknows hreceiver)
      fun w'' ref ref' _ href => matches_pure href.value
  addMethod href hv := matches_store_bind fun s hs =>
    matches_bind (S.addMethod hs href (pair_rename hv)) fun w' ref ref' _ href =>
      matches_pure href.value

section Nodes

variable {settings : Settings} {evaluate evaluate' : Node → FrameRef → Eval Value}
  (hev : ∀ w node e, S.Evaluates w node → S.Knows w (.frame e) →
    S.Matches w S.Pair (evaluate node e) (evaluate' node e))

def matchingCalls :
    Calls (matching S e) (both (invoke settings evaluate) (invoke settings evaluate')) where
  Callable w ref params g := ∃ f, S.Calls w.1 (.function ref) f ∧ params = f.params ∧
    g = both f (f.rename S.rename)
  later := by
    rintro w w' ref _ _ hlater ⟨f, hcalls, hparams, hg⟩
    exact ⟨f, S.calls_later hlater hcalls, hparams, hg⟩
  params_eq := by
    rintro _ _ _ _ ⟨f, -, rfl, rfl⟩ (_ | _) <;> rfl
  read {w ref k} href hk := matches_store_bind fun s hs => by
    obtain ⟨hfunction, hcalls⟩ := S.function hs href
    change S.Matches w.1 S.Pair _ (k true (s.store.function (S.rename ref)))
    rw [hfunction]
    exact hk _ _ ⟨_, hcalls, rfl, rfl⟩
  enter := by
    rintro w ref _ _ callee suffixes site values hsite href ⟨f, hcalls, rfl, rfl⟩ hvalues -
    refine callWith_valid (L := matching S e) (fun _ => rfl) trivial fun line column _ _ => ?_
    exact invoke_matches hev line column site hcalls
      (List.forall_mem_singleton.2 href) (pair_rename hvalues)

include hev

theorem step_matches (rounds : Nat) (node : Node) (hnode : S.Evaluates w node)
    (he : S.Knows w (.frame e)) :
    S.Matches w S.Pair (step (invoke settings evaluate) evaluate rounds node e)
      (step (invoke settings evaluate') evaluate' rounds node e) := by
  have hstep : (matching S e).Valid ⟨w, he⟩ fun i =>
      step (both (invoke settings evaluate) (invoke settings evaluate') i)
        (both evaluate evaluate' i) rounds node e :=
    step_valid_of_place (fun _ => rfl) (matchingCalls hev).applies
      (loops_of_timeout (fun _ => matches_timeout) rounds) hnode fun w' hlater child hchild =>
        hev w'.1 child e (S.evaluates_later hlater (S.evaluates_child hnode hchild)) w'.2
  exact hstep

end Nodes

/-- Evaluations of a tree from states that belong together end in states that do. -/
theorem evaluate_matches (settings : Settings) (n : Nat) (node : Node) (hnode : S.Evaluates w node)
    (he : S.Knows w (.frame e)) :
    S.Matches w S.Pair (evaluate settings n node e) (evaluate settings n node e) := by
  induction n generalizing w node e with
  | zero => exact matches_timeout
  | succ n ih => exact step_matches (fun w node e hnode he => ih node hnode he) n node hnode he

end Eval
end Scriptlet
