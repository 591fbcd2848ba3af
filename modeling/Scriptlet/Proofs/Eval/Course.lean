import Scriptlet.Proofs.Eval.CallFrame
import Scriptlet.Proofs.Eval.Immutability
import Scriptlet.Proofs.Eval.Simulation
/-!
# The course of an evaluation

What an evaluation does from its start to its end, with the tree that it evaluates and with a log of
the variables that its assignments make and of the functions that it calls. A function that is
called has a course of its own, in the frame of the call. Main statements: an evaluation that ends,
with a value or with a fault, has a course (`Eval.evaluate_course`), and an evaluation that checks a
property which changes and calls keep up is the evaluation itself (`Eval.evaluateChecked_eq`).
-/
namespace Scriptlet

/-- A variable that an assignment makes. -/
structure Declaration where
  frame : FrameRef
  name : String
  mutable : Bool
  position : Position
  /-- The state right before. -/
  before : State

/-- What the log of a course keeps. -/
inductive Happening where
  | declared (d : Declaration)
  /-- Code starts to run in the frame of a call. -/
  | called (frame : FrameRef) (code : Code)

/-- The tree that a function evaluates in the frame of its call. -/
def Code.tree : Code → Node
  | .closure _ body => body
  | .builtin _ => ⟨.statements [], .nowhere⟩

/-- What a reference stood for at some time up to now: a reference that leads nowhere stands for the
function that does nothing. -/
def Store.Denotes (s : Store) (ref : FunctionRef) (f : Function) : Prop :=
  f = s.function ref ∨ f = default

/-- The evaluation of parts of a tree in the frame `e` leads from one state to another. What happens
in calls is in the log too. -/
inductive Course : Node → FrameRef → State → List Happening → State → Prop
  | done {tree : Node} {e : FrameRef} {s : State} : Course tree e s [] s
  /-- An assignment of the tree makes a variable of a name that is not in scope. -/
  | declare {tree value : Node} {e : FrameRef} {s t : State} {log : List Happening}
      (name : String) (v : Value) (mutable : Bool) (p : Position) :
      Node.Within ⟨.assignment mutable name value, p⟩ tree → s.store.has e name = false →
      Course tree e { s.emit (.declared name mutable p) with
        store := s.store.bind e name ⟨v, mutable⟩ } log t →
      Course tree e s (.declared ⟨e, name, mutable, p, s⟩ :: log) t
  /-- Anything else that is done in the frame, without telling the listener. -/
  | change {tree : Node} {e : FrameRef} {s t u : State} {log : List Happening} :
      Change e s t → t.events = s.events → Course tree e t log u → Course tree e s log u
  /-- A function runs in a frame of its own. -/
  | call {tree : Node} {e : FrameRef} {s t u : State} {inner log : List Happening}
      {f : Function} (ref : FunctionRef) (values : List Value) (line column : Int64)
      (p : Position) : s.store.Denotes ref f →
      Course f.code.tree ⟨s.store.frames.size⟩ (s.called (.function ref) f values line column p)
        inner u →
      Course tree e u.left log t →
      Course tree e s (.called ⟨s.store.frames.size⟩ f.code :: (inner ++ log)) t

theorem Course.trans {tree : Node} {e : FrameRef} {s t u : State} {log log' : List Happening}
    (hst : Course tree e s log t) (htu : Course tree e t log' u) :
    Course tree e s (log ++ log') u := by
  induction hst with
  | done => exact htu
  | declare name v mutable p hwithin hnew _ ih =>
    exact .declare name v mutable p hwithin hnew (ih htu)
  | change hchange hevents _ ih => exact .change hchange hevents (ih htu)
  | call ref values line column p hf hbody _ _ ih =>
    rw [List.cons_append, List.append_assoc]
    exact .call ref values line column p hf hbody (ih htu)

theorem Node.Within.of_child {node child tree : Node} (h : node.Within tree)
    (hchild : child ∈ node.kind.children) : child.Within tree := by
  induction h with
  | self => exact .child hchild .self
  | child hmem _ ih => exact .child hmem ih

/-! ## Frames of a change and of a call -/

theorem Store.size_frames_bind (s : Store) (e : FrameRef) (name : String) (b : Binding) :
    (s.bind e name b).frames.size = s.frames.size := by
  simp [bind, modifyFrame]

/-- A change adds at most one frame, that of a call which is refused. -/
theorem Change.size_frames {e : FrameRef} {s t : State} (h : Change e s t) :
    t.store.frames.size = s.store.frames.size ∨
    ∃ callee params values line column, t = { s with
      store := (s.store.addFrame (.ofCall callee params values line column)).2 } := by
  cases h with
  | declare name v mutable p hnew => exact .inl (Store.size_frames_bind _ _ _ _)
  | assign name v owner htarget =>
    obtain ⟨hfirst, haccepts⟩ := Store.target_eq_ok htarget
    exact .inl (Store.overwritten_write hfirst haccepts).frames
  | addFrame callee params values line column =>
    exact .inr ⟨callee, params, values, line, column, rfl⟩
  | _ => exact .inl rfl

def Code.outers : Code → List FrameRef
  | .closure outer _ => [outer]
  | .builtin _ => []

theorem Frame.outers_receiveAll (frame : Frame) (receivers : List Value) :
    (frame.receiveAll receivers).outers = frame.outers := by
  induction receivers generalizing frame with
  | nil => rfl
  | cons receiver receivers ih =>
    rw [receiveAll, List.foldl_cons, ← receiveAll, ih]
    cases receiver <;> rfl

theorem Store.size_frames_receiveAll (s : Store) (ref : FrameRef) (receivers : List Value) :
    (s.receiveAll ref receivers).frames.size = s.frames.size := by
  induction receivers generalizing s with
  | nil => rfl
  | cons receiver receivers ih =>
    rw [receiveAll, List.foldl_cons, ← receiveAll, ih, size_frames_receive]

namespace State

variable (s : State) (callee : Value) (f : Function) (values : List Value) (line column : Int64)
  (p : Position)

theorem size_frames_called :
    (s.called callee f values line column p).store.frames.size = s.store.frames.size + 1 := by
  rw [called, entered]
  cases f.code <;>
    simp [Store.appendOuter, Store.modifyFrame, Store.size_frames_receiveAll, Store.addFrame]

theorem frame_called_of_lt {ref : FrameRef} (h : ref.index < s.store.frames.size) :
    (s.called callee f values line column p).store.frame ref = s.store.frame ref := by
  have hne : ref ≠ ⟨s.store.frames.size⟩ := by
    rintro rfl
    exact Nat.lt_irrefl _ h
  rw [called, frame_entered_of_ne hne]
  exact Store.frame_addFrame_of_lt s.store _ h

theorem frame_called_self :
    (s.called callee f values line column p).store.frame ⟨s.store.frames.size⟩ =
      { (Frame.ofCall callee f.params values line column).receiveAll f.receivers with
        outers := f.code.outers } := by
  let frame := Frame.ofCall callee f.params values line column
  let store := (s.store.addFrame frame).2
  let ref : FrameRef := ⟨s.store.frames.size⟩
  have hlt : ref.index < store.frames.size := s.store.lt_size_addFrame frame
  have hframe : (store.receiveAll ref f.receivers).frame ref = frame.receiveAll f.receivers := by
    have hself : store.frame ref = frame := s.store.frame_addFrame_self frame
    rw [Store.frame_receiveAll hlt, hself]
  have houters : (frame.receiveAll f.receivers).outers = [] := frame.outers_receiveAll f.receivers
  rw [called, entered]
  cases f.code with
  | closure outer body =>
    have hlt' : ref.index < (store.receiveAll ref f.receivers).frames.size := by
      rwa [Store.size_frames_receiveAll]
    change ((store.receiveAll ref f.receivers).appendOuter ref outer).frame ref = _
    rw [Store.appendOuter, Store.frame_modifyFrame _ ref ref _ hlt', if_pos rfl, hframe, houters]
    rfl
  | builtin b =>
    change (store.receiveAll ref f.receivers).frame ref = _
    rw [hframe, Code.outers, ← houters]

theorem store_called : (s.called callee f values line column p).store =
    { s.store with frames := (s.called callee f values line column p).store.frames } := by
  rw [called, entered]
  cases f.code <;> simp only [Store.appendOuter, Store.modifyFrame] <;> rw [Store.receiveAll_eq] <;>
    rfl

theorem functions_called :
    (s.called callee f values line column p).store.functions = s.store.functions := by
  rw [store_called]

end State

/-! ## Functions that are there stay -/

namespace Store

variable {s t u : Store}

/-- From `s` to `t`, references to functions stay good. -/
def KeepsFunctions (s t : Store) : Prop :=
  ∀ ref, t.Denotes ref (s.function ref)

theorem KeepsFunctions.refl (s : Store) : s.KeepsFunctions s :=
  fun _ => .inl rfl

theorem KeepsFunctions.denotes (h : s.KeepsFunctions t) {ref : FunctionRef} {f : Function}
    (hf : s.Denotes ref f) : t.Denotes ref f := by
  rcases hf with rfl | rfl
  · exact h ref
  · exact .inr rfl

theorem KeepsFunctions.trans (hst : s.KeepsFunctions t) (htu : t.KeepsFunctions u) :
    s.KeepsFunctions u :=
  fun ref => htu.denotes (hst ref)

theorem KeepsFunctions.of_eq (h : t.functions = s.functions) : s.KeepsFunctions t := by
  intro ref
  left
  rw [function, function, h]

theorem KeepsFunctions.addFunction (s : Store) (f : Function) :
    s.KeepsFunctions (s.addFunction f).2 := by
  intro ref
  rw [Denotes, function_addFunction]
  split
  · next h =>
    right
    rw [function, h]
    simp [Store.addFunction, Array.getD]
  · exact .inl rfl

theorem functions_write (s : Store) (name : String) (v : Value) (owner : Owner) :
    (s.write name v owner).functions = s.functions := by
  cases owner <;> rfl

end Store

theorem Change.keepsFunctions {e : FrameRef} {s t : State} (h : Change e s t) :
    s.store.KeepsFunctions t.store := by
  cases h with
  | assign name v owner htarget => exact .of_eq (Store.functions_write s.store name v owner)
  | addClosure params body => exact .addFunction s.store _
  | addMethod ref receiver => exact .addFunction s.store _
  | addPush => exact .addFunction s.store _
  | _ => exact .of_eq rfl

theorem Course.keepsFunctions {tree : Node} {e : FrameRef} {s t : State} {log : List Happening}
    (h : Course tree e s log t) : s.store.KeepsFunctions t.store := by
  induction h with
  | done => exact .refl _
  | declare name v mutable p _ hnew _ ih =>
    exact (Change.declare name v mutable p hnew).keepsFunctions.trans ih
  | change hchange _ _ ih => exact hchange.keepsFunctions.trans ih
  | @call tree e s t u inner log f ref values line column p _ _ _ hbody hrest =>
    have hcalled := s.functions_called (.function ref) f values line column p
    exact ((Store.KeepsFunctions.of_eq hcalled).trans hbody).trans hrest

/-! ## Moments of an evaluation -/

/-- A property of a frame and a state that changes and calls keep up. -/
structure Kept (I : FrameRef → State → Prop) : Prop where
  change : ∀ {e s t}, I e s → Change e s t → I e t
  call : ∀ {e s f} (ref : FunctionRef) (values : List Value) (line column : Int64) (p : Position),
    I e s → s.store.Denotes ref f →
    I ⟨s.store.frames.size⟩ (s.called (.function ref) f values line column p)
  left : ∀ {e s u}, I e s → I ⟨s.store.frames.size⟩ u → I e u.left

theorem Course.kept {I : FrameRef → State → Prop} (hI : Kept I) {tree : Node} {e : FrameRef}
    {s t : State} {log : List Happening} (h : Course tree e s log t) (hs : I e s) : I e t := by
  induction h with
  | done => exact hs
  | declare name v mutable p _ hnew _ ih => exact ih (hI.change hs (.declare name v mutable p hnew))
  | change hchange _ _ ih => exact ih (hI.change hs hchange)
  | call ref values line column p hf _ _ hbody hrest =>
    exact hrest (hI.left hs (hbody (hI.call ref values line column p hs hf)))

/-- A state in which parts of a tree are evaluated in a frame. -/
structure Moment (I : FrameRef → State → Prop) where
  tree : Node
  frame : FrameRef
  state : State
  kept : I frame state

namespace Moment

variable {α : Type} {I : FrameRef → State → Prop}

/-- An evaluation and its own course. -/
def comparison (I : FrameRef → State → Prop) : Comparison where
  World := Moment I
  state := Moment.state
  Mate w s := s = w.state
  Later w w' := w'.tree = w.tree ∧ w'.frame = w.frame ∧
    ∃ log, Course w.tree w.frame w.state log w'.state
  Knows w l := ∀ e, l = .frame e → e = w.frame
  Reads _ := True
  Evaluates w node := node.Within w.tree
  Calls w callee f := ∃ ref, callee = .function ref ∧ w.state.store.Denotes ref f
  rename := id

theorem holds (w : Moment I) (v : Value) : (comparison I).Holds w v := by
  intro l hl e he
  subst he
  change .frame e ∈ v.locations at hl
  cases v <;> simp [Value.locations] at hl

theorem pair (w : Moment I) (v : Value) : (comparison I).Pair w v v :=
  ⟨v.rename_id.symm, w.holds v⟩

theorem isSelf : (comparison I).IsSelf :=
  ⟨rfl, id⟩

theorem functionPair (w : Moment I) (ref : FunctionRef) :
    (comparison I).FunctionPair w ref ref :=
  ⟨rfl, fun _ h => by cases h⟩

variable {w w' : Moment I} {rel : Moment I → α → α → Prop}

theorem matches_of_value {m : Eval α} {a : α} (hm : m w.state = .value a w'.state)
    (hlater : (comparison I).Later w w') (hrel : rel w' a a) :
    (comparison I).Matches w rel m m := by
  rintro s rfl
  have hend : (comparison I).Ends w rel (.value a w'.state) (.value a w'.state) :=
    .value hlater rfl hrel
  rwa [← hm] at hend

theorem matches_of_failure {m : Eval α} {fault : Fault} (hm : m w.state = .failure fault w.state) :
    (comparison I).Matches w rel m m := by
  rintro s rfl
  have hend : (comparison I).Ends w rel (.failure fault w.state) (.failure fault w.state) :=
    .failure fault ⟨rfl, rfl, [], .done⟩ rfl
  rwa [← hm] at hend

variable (hI : Kept I)

include hI

theorem matches_of_change {m : Eval α} {a : α} {t : State} (hm : m w.state = .value a t)
    (h : Change w.frame w.state t) (hevents : t.events = w.state.events)
    (hrel : ∀ w', rel w' a a) : (comparison I).Matches w rel m m := by
  let w' : Moment I := ⟨w.tree, w.frame, t, hI.change w.kept h⟩
  have hlater : (comparison I).Later w w' := ⟨rfl, rfl, [], .change h hevents .done⟩
  exact matches_of_value hm hlater (hrel w')

theorem assignOrDeclare_matches_self {mutable : Bool} {name : String} {value : Node} {p : Position}
    (v : Value) (hnode : Node.Within ⟨.assignment mutable name value, p⟩ w.tree) :
    (comparison I).Matches w (comparison I).Pair
      (Eval.assignOrDeclare w.frame mutable name v p)
      (Eval.assignOrDeclare w.frame mutable name v p) := by
  have hopen := Eval.assignOrDeclare_eq w.frame mutable name v p w.state
  cases hnew : w.state.store.has w.frame name with
  | false =>
    rw [hnew, if_neg Bool.false_ne_true] at hopen
    have hchange : Change w.frame w.state _ := .declare name v mutable p hnew
    let w' : Moment I := ⟨w.tree, w.frame, _, hI.change w.kept hchange⟩
    have hlater : (comparison I).Later w w' :=
      ⟨rfl, rfl, _, .declare name v mutable p hnode hnew .done⟩
    exact matches_of_value hopen hlater (w'.pair v)
  | true =>
    rw [hnew, if_pos rfl] at hopen
    cases htarget : w.state.store.target w.frame name with
    | ok owner =>
      rw [htarget] at hopen
      exact matches_of_change hI hopen (.assign name v owner htarget) rfl fun w' => w'.pair v
    | error reason =>
      rw [htarget] at hopen
      cases reason <;> exact matches_of_failure hopen

def simulation : Simulation where
  toComparison := comparison I
  later_refl w := ⟨rfl, rfl, [], .done⟩
  later_trans := by
    rintro w w' w'' ⟨htree, hframe, log, hcourse⟩ ⟨htree', hframe', log', hcourse'⟩
    rw [htree, hframe] at hcourse'
    exact ⟨htree'.trans htree, hframe'.trans hframe, log ++ log', hcourse.trans hcourse'⟩
  knows_later := by
    rintro w w' l ⟨-, hframe, -⟩ hl e rfl
    exact (hl e rfl).trans hframe.symm
  evaluates_later := by
    rintro w w' node ⟨htree, -⟩ hnode
    change node.Within w'.tree
    rwa [htree]
  calls_later := by
    rintro w w' callee f ⟨-, -, log, hcourse⟩ ⟨ref, hcallee, hf⟩
    exact ⟨ref, hcallee, hcourse.keepsFunctions.denotes hf⟩
  evaluates_child hnode hchild := hnode.of_child hchild
  reads_identifier _ := trivial
  reads_builtin _ _ _ := trivial
  counts := by
    rintro w s rfl
    exact ⟨rfl, rfl⟩
  lookup := by
    rintro w s e name rfl - -
    simp only [comparison, Value.rename_id, Option.map_id', true_and]
    exact fun v _ => w.holds v
  property := by
    rintro w s ref name rfl -
    simp only [comparison, Value.rename_id, Option.map_id', true_and]
    exact fun v _ => w.holds v
  array := by
    rintro w s ref rfl -
    simp only [comparison, Value.rename_id, Array.map_id', true_and]
    exact fun v _ => w.holds v
  function := by
    rintro w s ref rfl -
    exact ⟨(Function.rename_id _).symm, ref, rfl, .inl rfl⟩
  compare := by
    rintro w s a b a' b' op p rfl ha hb
    rw [isSelf.eq_of_pair ha, isSelf.eq_of_pair hb]
    rfl
  display := by
    rintro w s v v' rfl hv
    rw [isSelf.eq_of_pair hv]
    rfl
  assign := by
    intro w e mutable name value p v v' he hnode hv
    cases he e rfl
    rw [isSelf.eq_of_pair hv]
    exact assignOrDeclare_matches_self hI v hnode
  setProperty := by
    intro w ref v v' name _ hv
    rw [isSelf.eq_of_pair hv]
    exact matches_of_change hI rfl (.setProperty ref name v) rfl fun _ => trivial
  pushItem := by
    intro w ref v v' _ hv
    rw [isSelf.eq_of_pair hv]
    exact matches_of_change hI rfl (.pushItem ref v) rfl fun _ => trivial
  print text := matches_of_change hI rfl (.print text) rfl fun _ => trivial
  addArray := by
    intro w values values' hvalues
    rw [isSelf.eq_of_pair hvalues]
    exact matches_of_change hI rfl (.addArray values.toArray) rfl
      fun _ => ⟨rfl, fun _ h => by cases h⟩
  addObject := by
    intro w entries entries' hentries
    rw [isSelf.eq_of_pair hentries]
    exact matches_of_change hI rfl (.addObject (.ofList entries)) rfl
      fun _ => ⟨rfl, fun _ h => by cases h⟩
  addClosure := by
    rintro w e params body p he -
    cases he e rfl
    exact matches_of_change hI rfl (.addClosure params body) rfl fun w' => w'.functionPair _
  addPush := matches_of_change hI rfl .addPush rfl fun w' => w'.functionPair _
  addMethod := by
    rintro w s ref v v' rfl - hv
    rw [isSelf.eq_of_pair hv]
    exact matches_of_change hI rfl (.addMethod ref v) rfl fun w' => w'.functionPair _
  refuse := by
    intro w callee f values values' line column _ _ hvalues
    rw [isSelf.eq_of_pair hvalues]
    simp only [comparison, Value.rename_id]
    exact matches_of_change hI rfl (.addFrame callee f.params values line column) rfl
      fun _ => trivial
  enter := by
    rintro w s _ f values values' line column p rfl ⟨ref, rfl, hf⟩ - hvalues
    rw [isSelf.eq_of_pair hvalues]
    simp only [comparison, Value.rename_id, Function.rename_id]
    refine ⟨⟨f.code.tree, _, _, hI.call ref values line column p w.kept hf⟩, rfl, rfl, ?_, ?_, ?_⟩
    · rintro e ⟨⟩
      rfl
    · intro outer body hcode
      change body.Within f.code.tree
      rw [hcode]
      exact .self
    · rintro w' ⟨-, hframe, inner, hcourse⟩
      have hkept := hI.left w.kept (hframe ▸ w'.kept)
      have hcall : Course w.tree w.frame w.state _ w'.state.left :=
        .call ref values line column p hf hcourse .done
      refine ⟨⟨w.tree, w.frame, w'.state.left, hkept⟩, ⟨rfl, rfl, _, hcall⟩, rfl, ?_, ?_⟩
      · rintro s rfl
        rfl
      · exact fun v _ => holds _ v

end Moment

namespace Eval

variable {α : Type}

/-- An evaluation that ends, with a value or with a fault, has a course. -/
theorem evaluate_course (settings : Settings) (n : Nat) (node : Node) (e : FrameRef) (s t : State)
    (h : (evaluate settings n node e s).final? = some t) : ∃ log, Course node e s log t := by
  have hkept : Kept fun _ _ => True :=
    ⟨fun _ _ => trivial, fun _ _ _ _ _ _ _ => trivial, fun _ _ => trivial⟩
  let w : Moment fun _ _ => True := ⟨node, e, s, trivial⟩
  have hknows : (Moment.simulation hkept).Knows w (.frame e) := by
    rintro _ ⟨⟩
    rfl
  have hend := evaluate_matches settings n node (S := Moment.simulation hkept) (w := w) .self hknows
    s rfl
  change (Moment.simulation hkept).Ends w _ (evaluate settings n node e s) _ at hend
  generalize evaluate settings n node e s = x at h hend
  cases hend with
  | value hlater _ _ =>
    cases h
    exact hlater.2.2
  | failure fault hlater _ =>
    cases h
    exact hlater.2.2
  | timeout => cases h

def checked (test : State → Bool) (alarm : Fault) (m : Eval α) : Eval α := fun s =>
  if test s && (m s).final?.all test then m s else .failure alarm s

/-- Evaluates as `evaluate` does, and tests the state before and after every node of the program, in
the frame that the node is evaluated in. The bodies of functions that are called are among these
nodes. -/
def evaluateChecked (test : FrameRef → State → Bool) (alarm : Fault) (settings : Settings) :
    Nat → Node → FrameRef → Eval Value
  | 0, _, _ => timeout
  | n + 1, node, frame =>
    let evaluate := evaluateChecked test alarm settings n
    checked (test frame) alarm (step (invoke settings evaluate) evaluate n node frame)

section Checked

variable {I : FrameRef → State → Prop} {test : FrameRef → State → Bool}
  (htest : ∀ e s, I e s → test e s = true)

include htest

theorem matches_checked {w : Moment I} {m m' : Eval Value} (alarm : Fault)
    (h : (Moment.comparison I).Matches w (Moment.comparison I).Pair m m') :
    (Moment.comparison I).Matches w (Moment.comparison I).Pair m
      (checked (test w.frame) alarm m') := by
  rintro s rfl
  have hend := h w.state rfl
  have hfinal : (m' w.state).final?.all (test w.frame) = true := by
    generalize m ((Moment.comparison I).state w) = x at hend
    generalize m' w.state = y at hend
    cases hend with
    | @value w' _ _ _ hlater hmate _ =>
      cases hmate
      exact htest _ _ (hlater.2.1 ▸ w'.kept)
    | @failure w' _ fault hlater hmate =>
      cases hmate
      exact htest _ _ (hlater.2.1 ▸ w'.kept)
    | timeout => rfl
  rw [checked, htest _ _ w.kept, hfinal]
  exact hend

theorem evaluateChecked_matches (hI : Kept I) (alarm : Fault) (settings : Settings) (n : Nat)
    (w : Moment I) (node : Node) (e : FrameRef) (hnode : node.Within w.tree) (he : e = w.frame) :
    (Moment.comparison I).Matches w (Moment.comparison I).Pair (evaluate settings n node e)
      (evaluateChecked test alarm settings n node e) := by
  induction n generalizing w node e with
  | zero => exact Simulation.matches_timeout (S := Moment.simulation hI)
  | succ n ih =>
    subst he
    apply matches_checked htest alarm
    refine step_matches (S := Moment.simulation hI) (w := w) ?_ n node hnode ?_
    · intro w' child e' hchild he'
      exact ih w' child e' hchild (he' e' rfl)
    · rintro _ ⟨⟩
      rfl

/-- Nothing is noticed if a property that changes and calls keep up holds at the start, and the
states with that property pass the test. -/
theorem evaluateChecked_eq (hI : Kept I) (alarm : Fault) (settings : Settings) (n : Nat)
    (node : Node) (e : FrameRef) (s : State) (hs : I e s) :
    evaluateChecked test alarm settings n node e s = evaluate settings n node e s := by
  let w : Moment I := ⟨node, e, s, hs⟩
  have hend := evaluateChecked_matches htest hI alarm settings n w node e .self rfl s rfl
  exact Moment.isSelf.eq_of_ends hend

end Checked

end Eval
end Scriptlet
