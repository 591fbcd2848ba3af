import Scriptlet.Proofs.Eval.Agreement
import Scriptlet.Proofs.Program.Session
import Scriptlet.Proofs.Syntax.Tree
/-!
# Where faults are reported

A fault is reported at the place of a node or of a suffix that is evaluated, and all that is
evaluated comes from the bodies of functions and from the program itself. So the places of a
program's faults are among those of the bodies in the store and of the program. A provided function
has no place of its own; it takes the place of its call from the variables of its frame. Main
statement: a fault is blamed on one of these places, and to report what a provided function raises
at the place of its call makes no difference (`Eval.evaluate_blames`).
-/
namespace Scriptlet

/-- All places of a tree, those of its suffixes included, are among the given ones. -/
def Node.PlacesIn (places : Set Position) (tree : Node) : Prop :=
  ∀ node : Node, node.Within tree →
    node.position ∈ places ∧ ∀ suffix ∈ node.kind.suffixes, suffix.position ∈ places

theorem Node.placesIn_iff {places : Set Position} {tree : Node} : tree.PlacesIn places ↔
    (tree.position ∈ places ∧ ∀ suffix ∈ tree.kind.suffixes, suffix.position ∈ places) ∧
      ∀ child ∈ tree.kind.children, child.PlacesIn places :=
  Node.forall_within

/-- A tree with its places among the given ones, or one that does nothing at all. -/
def Node.BlamesIn (places : Set Position) (tree : Node) : Prop :=
  tree.kind = .statements [] ∨ tree.PlacesIn places

def Code.PlacesIn (places : Set Position) (code : Code) : Prop :=
  ∀ frame body, code = .closure frame body → body.BlamesIn places

def Store.PlacesIn (places : Set Position) (s : Store) : Prop :=
  ∀ ref, (s.function ref).code.PlacesIn places

/-- A fault that is reported at one of the given places, or that the surroundings of the program are
to blame for. -/
def Fault.BlamedIn (places : Set Position) (settings : Settings) : Fault → Prop
  | .raised _ p => p ∈ places
  | .output _ => True
  | .internal .busyOutput => settings.sink = .busy
  | .internal .busyArray => settings.held ≠ none
  | .internal (.negativeCoordinate _) => False

section Places

variable {places more : Set Position} {s t : Store}

theorem Node.PlacesIn.mono {tree : Node} (h : tree.PlacesIn places) (hsub : places ⊆ more) :
    tree.PlacesIn more :=
  fun node hnode => ⟨hsub (h node hnode).1, fun suffix hs => hsub ((h node hnode).2 suffix hs)⟩

theorem Code.builtin_placesIn (b : Builtin) : (Code.builtin b).PlacesIn places := by
  intro frame body h
  cases h

theorem Store.PlacesIn.mono (h : s.PlacesIn places) (hsub : places ⊆ more) : s.PlacesIn more :=
  fun ref frame body hcode => (h ref frame body hcode).imp_right fun hbody => hbody.mono hsub

theorem Store.PlacesIn.congr (h : s.PlacesIn places) (hfunctions : t.functions = s.functions) :
    t.PlacesIn places := by
  intro ref
  rw [function, hfunctions]
  exact h ref

theorem Store.PlacesIn.addFunction (h : s.PlacesIn places) {f : Function}
    (hf : f.code.PlacesIn places) : (s.addFunction f).2.PlacesIn places := by
  intro ref
  rw [function_addFunction]
  split
  · exact hf
  · exact h ref

end Places

/-! ## Computations that blame the right places -/

inductive Outcome.Blames {α : Type} (places : Set Position) (settings : Settings) :
    Outcome Fault α → Prop
  | value {a : α} {t : State} : t.store.PlacesIn places → Blames places settings (.value a t)
  | failure {fault : Fault} {t : State} : t.store.PlacesIn places → fault.BlamedIn places settings →
      Blames places settings (.failure fault t)
  | timeout : Blames places settings .timeout

theorem Outcome.Blames.of_final {α : Type} {places : Set Position} {settings : Settings}
    {x : Outcome Fault α} {t : State} (h : x.Blames places settings) (ht : x.final? = some t) :
    t.store.PlacesIn places := by
  cases h with
  | value hplaces => cases ht; exact hplaces
  | failure hplaces _ => cases ht; exact hplaces
  | timeout => cases ht

namespace Eval

variable {α β : Type} {places : Set Position} {settings : Settings}

def BlamesFrom (places : Set Position) (settings : Settings) (s : State) (m m' : Eval α) : Prop :=
  m' s = m s ∧ (m s).Blames places settings

/-- From every state with bodies as they should be, the second computation ends as the first does,
and the faults are blamed on the given places. -/
def Blames (places : Set Position) (settings : Settings) (m m' : Eval α) : Prop :=
  ∀ s, s.store.PlacesIn places → BlamesFrom places settings s m m'

section Basic

theorem Blames.pure (a : α) : Blames places settings (Pure.pure a) (Pure.pure a) :=
  fun _ hs => ⟨rfl, .value hs⟩

theorem Blames.timeout : Blames places settings (timeout : Eval α) timeout :=
  fun _ _ => ⟨rfl, .timeout⟩

theorem Blames.fail {fault : Fault} (h : fault.BlamedIn places settings) :
    Blames places settings (fail fault : Eval α) (fail fault) :=
  fun _ hs => ⟨rfl, .failure hs h⟩

theorem Blames.raise {p : Position} (h : p ∈ places) (cause : Fault.Cause) :
    Blames places settings (raise cause p : Eval α) (raise cause p) :=
  .fail h

theorem BlamesFrom.bind {s : State} {m m' : Eval α} {f f' : α → Eval β}
    (hm : BlamesFrom places settings s m m')
    (hf : ∀ a t, m s = .value a t → t.store.PlacesIn places →
      BlamesFrom places settings t (f a) (f' a)) :
    BlamesFrom places settings s (m >>= f) (m' >>= f') := by
  obtain ⟨hsame, hends⟩ := hm
  rw [BlamesFrom, bind_apply, bind_apply, hsame]
  cases hms : m s with
  | value a t =>
    rw [hms] at hends
    cases hends with
    | value ht => exact hf a t hms ht
  | failure fault t =>
    rw [hms] at hends
    cases hends with
    | failure ht hfault => exact ⟨rfl, .failure ht hfault⟩
  | timeout => exact ⟨rfl, .timeout⟩

theorem Blames.bind {m m' : Eval α} {f f' : α → Eval β} (hm : Blames places settings m m')
    (hf : ∀ a, Blames places settings (f a) (f' a)) :
    Blames places settings (m >>= f) (m' >>= f') :=
  fun s hs => (hm s hs).bind fun a t _ ht => hf a t ht

theorem Blames.store_bind {f f' : Store → Eval α}
    (hf : ∀ store, store.PlacesIn places → Blames places settings (f store) (f' store)) :
    Blames places settings (store >>= f) (store >>= f') :=
  fun s hs => hf s.store hs s hs

theorem Blames.lift {x : Position → Except Fault α} (hx : Placed x) {p : Position}
    (hp : p ∈ places) : Blames places settings (lift (x p)) (lift (x p)) := by
  rcases hx with ⟨a, ha⟩ | ⟨cause, hcause⟩
  · rw [ha]
    exact .pure a
  · rw [hcause]
    exact .raise hp cause

theorem Blames.modify {change : State → State}
    (h : ∀ s, (change s).store.functions = s.store.functions) :
    Blames places settings (modify change) (modify change) :=
  fun s hs => ⟨rfl, .value (hs.congr (h s))⟩

theorem Blames.modifyStore {change : Store → Store}
    (h : ∀ store, (change store).functions = store.functions) :
    Blames places settings (modifyStore change) (modifyStore change) :=
  fun s hs => ⟨rfl, .value (hs.congr (h s.store))⟩

theorem Blames.add {change : Store → α × Store}
    (h : ∀ store, (change store).2.functions = store.functions) :
    Blames places settings (add change) (add change) :=
  fun s hs => ⟨rfl, .value (hs.congr (h s.store))⟩

theorem Blames.addFunction {f : Function} (hf : f.code.PlacesIn places) :
    Blames places settings (Eval.add (·.addFunction f)) (Eval.add (·.addFunction f)) :=
  fun _ hs => ⟨rfl, .value (hs.addFunction hf)⟩

theorem BlamesFrom.nested {s : State} {m m' : Eval α}
    (h : BlamesFrom places settings { s with depth := s.depth + 1 } m m') :
    BlamesFrom places settings s (nested m) (nested m') := by
  obtain ⟨hsame, hends⟩ := h
  rw [BlamesFrom, Eval.nested, Eval.nested, hsame]
  refine ⟨rfl, ?_⟩
  cases hms : m { s with depth := s.depth + 1 } with
  | value a t =>
    rw [hms] at hends
    cases hends with
    | value ht => exact .value ht
  | failure fault t =>
    rw [hms] at hends
    cases hends with
    | failure ht hfault => exact .failure ht hfault
  | timeout => exact .timeout

end Basic

section Variables

variable {p : Position} (hp : p ∈ places)

include hp

theorem lookup_blames (frame : FrameRef) (name : String) :
    Blames places settings (lookup frame name p) (lookup frame name p) := by
  refine .store_bind fun store _ => ?_
  cases store.get? frame name with
  | none => exact .raise hp _
  | some v => exact .pure v

theorem assign_blames (frame : FrameRef) (name : String) (v : Value) :
    Blames places settings (assign frame name v p) (assign frame name v p) := by
  refine .store_bind fun store _ => ?_
  cases store.target frame name with
  | ok owner => exact .modifyStore fun _ => by cases owner <;> rfl
  | error refusal => cases refusal <;> exact .raise hp _

theorem assignOrDeclare_blames (frame : FrameRef) (mutable : Bool) (name : String) (v : Value) :
    Blames places settings (assignOrDeclare frame mutable name v p)
      (assignOrDeclare frame mutable name v p) := by
  refine .store_bind fun store _ => ?_
  cases store.has frame name with
  | true => exact .bind (assign_blames hp frame name v) fun _ => .pure v
  | false =>
    refine .bind (.modify fun _ => rfl) fun _ => ?_
    exact .bind (.modifyStore fun _ => rfl) fun _ => .pure v

end Variables

/-! ## Provided functions -/

/-- Reports what a computation raises at the given place. -/
def raisingAt (p : Position) (m : Eval α) : Eval α := fun s =>
  match m s with
  | .failure (.raised cause _) t => .failure (.raised cause p) t
  | outcome => outcome

section RaisingAt

variable {p : Position}

theorem raisingAt_bind {m : Eval α} {f : α → Eval β} (hm : raisingAt p m = m)
    (hf : ∀ a, raisingAt p (f a) = f a) : raisingAt p (m >>= f) = m >>= f := by
  funext s
  have hms : raisingAt p m s = m s := congrFun hm s
  rw [raisingAt, bind_apply]
  rw [raisingAt] at hms
  cases hcase : m s with
  | value a t => exact congrFun (hf a) t
  | failure fault t =>
    rw [hcase] at hms
    cases fault with
    | raised cause q =>
      cases hms
      rfl
    | _ => rfl
  | timeout => rfl

theorem raisingAt_lookup (frame : FrameRef) (name : String) :
    raisingAt p (lookup frame name p) = lookup frame name p := by
  refine raisingAt_bind rfl fun store => ?_
  cases store.get? frame name <;> rfl

theorem raisingAt_toArray (v : Value) : raisingAt p (lift (v.toArray p)) = lift (v.toArray p) := by
  cases v <;> rfl

theorem raisingAt_writeLine (sink : Sink) (text : String) :
    raisingAt p (writeLine sink text) = writeLine sink text := by
  cases sink <;> rfl

end RaisingAt

end Eval

namespace Builtin

open Eval

/-- What a provided function does as soon as it knows the place of its call. -/
def runAt (settings : Settings) (frame : FrameRef) (b : Builtin) (p : Position) : Eval Value :=
  match b with
  | puts => do
    let v ← lookup frame b.parameterName p
    writeLine settings.sink ((← store).display v)
    return .undefined
  | assert => do
    if (← lookup frame b.parameterName p).truthy then return .undefined
    else raise .assertionFailed p
  | push => do
    let receiver ← lookup frame Frame.thisName p
    let v ← lookup frame b.parameterName p
    let ref ← receiver.toArray p
    if settings.held = some ref then fail (.internal .busyArray)
    modifyStore (·.pushItem ref v)
    return receiver

theorem run_eq (settings : Settings) (frame : FrameRef) (b : Builtin) :
    b.run settings frame = callSite frame >>= b.runAt settings frame := by
  cases b <;> rfl

variable {places : Set Position} {settings : Settings} {p : Position}

theorem runAt_blames (hp : p ∈ places) (frame : FrameRef) (b : Builtin) :
    Blames places settings (b.runAt settings frame p) (b.runAt settings frame p) := by
  cases b with
  | puts =>
    refine .bind (lookup_blames hp frame _) fun v => .store_bind fun store _ => ?_
    refine .bind ?_ fun _ => .pure _
    cases hsink : settings.sink with
    | ready => exact .modify fun _ => rfl
    | closed reason => exact .fail trivial
    | busy => exact .fail hsink
  | assert =>
    refine .bind (lookup_blames hp frame _) fun v => ?_
    split_ifs
    · exact .pure _
    · exact .raise hp _
  | push =>
    refine .bind (lookup_blames hp frame _) fun receiver => ?_
    refine .bind (lookup_blames hp frame _) fun v => ?_
    refine .bind (.lift receiver.toArray_placed hp) fun ref => ?_
    split_ifs with hheld
    · exact .bind (.fail (by simp [Fault.BlamedIn, hheld])) fun _ =>
        .bind (.modifyStore fun _ => rfl) fun _ => .pure _
    · exact .bind (.modifyStore fun _ => rfl) fun _ => .pure _

theorem raisingAt_runAt (settings : Settings) (frame : FrameRef) (b : Builtin) (p : Position) :
    raisingAt p (b.runAt settings frame p) = b.runAt settings frame p := by
  cases b with
  | puts =>
    refine raisingAt_bind (raisingAt_lookup frame _) fun v => raisingAt_bind rfl fun store => ?_
    exact raisingAt_bind (raisingAt_writeLine _ _) fun _ => rfl
  | assert =>
    refine raisingAt_bind (raisingAt_lookup frame _) fun v => ?_
    split_ifs <;> rfl
  | push =>
    refine raisingAt_bind (raisingAt_lookup frame _) fun receiver =>
      raisingAt_bind (raisingAt_lookup frame _) fun v =>
      raisingAt_bind (raisingAt_toArray receiver) fun ref => ?_
    split_ifs <;> rfl

end Builtin

/-! ## Calls -/

/-- A frame says that it belongs to a call at the given place. -/
def Store.CalledAt (s : Store) (frame : FrameRef) (p : Position) : Prop :=
  ∃ line column : Int64, line.toInt = p.line ∧ column.toInt = p.column ∧
    (s.frame frame).bindings.get? Frame.lineName = some ⟨.integer line, false⟩ ∧
    (s.frame frame).bindings.get? Frame.columnName = some ⟨.integer column, false⟩

theorem Store.CalledAt.receiveAll {s : Store} {frame : FrameRef} {p : Position}
    (h : s.CalledAt frame p) (receivers : List Value) :
    (s.receiveAll frame receivers).CalledAt frame p := by
  obtain ⟨line, column, hline, hcolumn, hlineName, hcolumnName⟩ := h
  refine ⟨line, column, hline, hcolumn, ?_, ?_⟩
  · rwa [frame_receiveAll (lt_of_binding hlineName), Frame.get?_receiveAll_of_ne (by decide)]
  · rwa [frame_receiveAll (lt_of_binding hlineName), Frame.get?_receiveAll_of_ne (by decide)]

theorem Store.calledAt_addFrame (s : Store) (callee : Value) (params : List Parameter)
    (values : List Value) {line column : Int64} {p : Position} (hline : line.toInt = p.line)
    (hcolumn : column.toInt = p.column) :
    (s.addFrame (.ofCall callee params values line column)).2.CalledAt
      (s.addFrame (.ofCall callee params values line column)).1 p := by
  refine ⟨line, column, hline, hcolumn, ?_, ?_⟩
  · rw [frame_addFrame_self, Frame.bindings_ofCall, Table.get?_insert, if_neg (by decide),
      Table.get?_insert, if_pos rfl]
  · rw [frame_addFrame_self, Frame.bindings_ofCall, Table.get?_insert, if_pos rfl]

namespace Eval

theorem callSite_of_calledAt {s : State} {frame : FrameRef} {p : Position}
    (h : s.store.CalledAt frame p) : callSite frame s = .value p s := by
  obtain ⟨line, column, hline, hcolumn, hlineName, hcolumnName⟩ := h
  rw [callSite, bind_apply, coordinate_of_binding hlineName (by omega)]
  dsimp only
  rw [bind_apply, coordinate_of_binding hcolumnName (by omega), hline, hcolumn]
  rfl

/-- Reports what a provided function raises at the place of its call. -/
def blaming (p : Position) : Code → Eval Value → Eval Value
  | .builtin _, m => raisingAt p m
  | .closure _ _, m => m

/-- Invokes a function, where what a provided function raises is reported at the place of the
call. -/
def invokeBlaming (settings : Settings) (evaluate : Node → FrameRef → Eval Value) (f : Function)
    (frame : FrameRef) (p : Position) : Eval Value :=
  invokeWatched (blaming p) settings evaluate f frame p

variable {places : Set Position} {settings : Settings}

theorem builtin_blames {s : State} (hs : s.store.PlacesIn places) {frame : FrameRef} {p : Position}
    (hp : p ∈ places) (hcalled : s.store.CalledAt frame p) (b : Builtin) :
    BlamesFrom places settings s (b.run settings frame) (raisingAt p (b.run settings frame)) := by
  have hrun : b.run settings frame s = b.runAt settings frame p s := by
    rw [Builtin.run_eq, bind_apply, callSite_of_calledAt hcalled]
  have hsame : raisingAt p (b.run settings frame) s = raisingAt p (b.runAt settings frame p) s := by
    rw [raisingAt, raisingAt, hrun]
  rw [BlamesFrom, hsame, hrun, Builtin.raisingAt_runAt]
  exact Builtin.runAt_blames hp frame b s hs

/-- Two ways of evaluating that blame the same places, whatever tree they are given. -/
def EvaluatesAlike (places : Set Position) (settings : Settings)
    (evaluate evaluate' : Node → FrameRef → Eval Value) : Prop :=
  ∀ node : Node, node.BlamesIn places → ∀ e,
    Blames places settings (evaluate node e) (evaluate' node e)

def InvokesAlike (places : Set Position) (settings : Settings)
    (call call' : Function → FrameRef → Position → Eval Value) : Prop :=
  ∀ f : Function, f.code.PlacesIn places → ∀ p ∈ places, ∀ frame s, s.store.PlacesIn places →
    s.store.CalledAt frame p → BlamesFrom places settings s (call f frame p) (call' f frame p)

theorem runCode_blames {evaluate evaluate' : Node → FrameRef → Eval Value}
    (hev : EvaluatesAlike places settings evaluate evaluate') {code : Code}
    (hcode : code.PlacesIn places) {p : Position} (hp : p ∈ places) {frame : FrameRef} {s : State}
    (hs : s.store.PlacesIn places) (hcalled : s.store.CalledAt frame p) :
    BlamesFrom places settings s (runCode settings evaluate code frame)
      (blaming p code (runCode settings evaluate' code frame)) := by
  cases code with
  | closure outer body =>
    have henter : Blames places settings (modifyStore (·.appendOuter frame outer))
        (modifyStore (·.appendOuter frame outer)) := .modifyStore fun _ => rfl
    exact (henter s hs).bind fun _ t _ ht => hev body (hcode outer body rfl) frame t ht
  | builtin b => exact builtin_blames hs hp hcalled b

theorem invoke_blames {evaluate evaluate' : Node → FrameRef → Eval Value}
    (hev : EvaluatesAlike places settings evaluate evaluate') :
    InvokesAlike places settings (invoke settings evaluate) (invokeBlaming settings evaluate') := by
  intro f hf p hp frame s hs hcalled
  -- The state in which the code of the function starts.
  let t : State := {
    store := s.store.receiveAll frame f.receivers
    depth := s.depth + 1
    output := s.output
    events := s.events.push (.invoked f.params.length (s.depth + 1) p) }
  have ht : t.store.PlacesIn places := hs.congr (s.store.functions_receiveAll frame f.receivers)
  have hcode := runCode_blames hev hf hp ht (hcalled.receiveAll f.receivers)
  rw [← invokeWatched_eq_invoke, BlamesFrom, invokeBlaming, invokeWatched, invokeWatched,
    bind_apply, bind_apply, get]
  dsimp only
  split_ifs
  · exact Blames.raise hp _ s hs
  · exact BlamesFrom.nested hcode

/-! ## One step -/

def blamingIn (places : Set Position) (settings : Settings) (e : FrameRef) : Logic where
  Index := Bool
  Evaluates _ node := node.PlacesIn places
  Reports _ p := p ∈ places
  frame := e
  place _ := id
  rename _ := id
  Valid _ m := Blames places settings (m false) (m true)
  evaluates_child h hchild := (Node.placesIn_iff.1 h).2 _ hchild
  reports_node h := (Node.placesIn_iff.1 h).1.1
  reports_suffix h hsuffix := (Node.placesIn_iff.1 h).1.2 _ hsuffix
  pure _ := .pure _
  bind hm hf := .bind hm fun a => by
    simpa only [Result.rename_id] using hf () a trivial fun _ _ => trivial
  raise cause hp := .raise hp cause
  lookup h := lookup_blames (Node.placesIn_iff.1 h).1.1 e _
  property _ _ := .store_bind fun _ _ => .pure _
  array _ := .store_bind fun _ _ => .pure _
  compare op _ _ hp := .store_bind fun store _ => .lift (store.compare_placed op _ _) hp
  display _ := .store_bind fun _ _ => .pure _
  assign h _ := assignOrDeclare_blames (Node.placesIn_iff.1 h).1.1 e _ _ _
  setProperty _ _ _ := .modifyStore fun _ => rfl
  addArray _ := .bind (.add fun _ => rfl) fun _ => .pure _
  addObject _ := .bind (.add fun _ => rfl) fun _ => .pure _
  addClosure {_ _ body _} h := by
    refine .bind (.addFunction ?_) fun _ => .pure _
    intro frame body' hbody
    cases hbody
    rw [Node.relocate_id]
    exact .inr ((Node.placesIn_iff.1 h).2 body (List.mem_singleton_self body))
  addPush _ := .bind (.addFunction (Code.builtin_placesIn .push)) fun _ =>
    .store_bind fun _ hstore => .bind (.addFunction (hstore _)) fun _ => .pure _
  addMethod _ _ := .store_bind fun _ hstore => .bind (.addFunction (hstore _)) fun _ => .pure _

section Step

variable {call call' : Function → FrameRef → Position → Eval Value}
  {evaluate evaluate' : Node → FrameRef → Eval Value} {e : FrameRef}
  (hcall : InvokesAlike places settings call call')

/-- Functions of the store are called on frames that know the place of the call. -/
def blamingCalls : Calls (blamingIn places settings e) (both call call') :=
  .ofPlace (fun _ => rfl) (fun _ f => f.code.PlacesIn places) (fun _ h => h)
    (fun _ hk => Blames.store_bind fun _ hstore => hk _ (hstore _)) <| by
    intro _ ref f site line column values hsite _ hf _ _ hline hcolumn s hs
    refine (Blames.add (fun _ => rfl) s hs).bind fun inner t ht htplaces => ?_
    cases ht
    exact hcall _ hf site hsite _ _ htplaces (s.store.calledAt_addFrame _ _ _
      (Arithmetic.toInt_of_ofInt hline) (Arithmetic.toInt_of_ofInt hcolumn))

include hcall

theorem step_blames (hev : EvaluatesAlike places settings evaluate evaluate') (rounds : Nat)
    {node : Node} (hnode : node.PlacesIn places) :
    Blames places settings (step call evaluate rounds node e)
      (step call' evaluate' rounds node e) := by
  have hstep : (blamingIn places settings e).Valid () fun i =>
      step (both call call' i) (both evaluate evaluate' i) rounds node e :=
    step_valid_of_place (fun _ => rfl) (blamingCalls hcall).applies
      (loops_of_timeout (fun _ => Blames.timeout) rounds) hnode fun _ _ child hchild =>
        hev child (.inr ((Node.placesIn_iff.1 hnode).2 child hchild)) e
  exact hstep

end Step

/-- Evaluating a tree in a store blames their places only, and what provided functions raise is
reported at the places of their calls. -/
theorem evaluate_blames (places : Set Position) (settings : Settings) (n : Nat) :
    EvaluatesAlike places settings (evaluate settings n)
      (evaluateWith (invokeBlaming settings) n) := by
  induction n with
  | zero => exact fun _ _ _ => .timeout
  | succ n ih =>
    intro node hnode e
    rw [evaluate, evaluateWith]
    rcases hnode with hempty | hnode
    · rw [step, step, hempty]
      exact .pure _
    · exact step_blames (invoke_blames ih) ih n hnode

end Eval

end Scriptlet
