import Scriptlet.Proofs.Eval.Course
import Scriptlet.Proofs.Value.Arithmetic
/-!
# What a call does

A call needs a function, and an argument for each of its parameters; more arguments than that are
not looked at. It evaluates the arguments, makes a frame and runs the code of the function on it.
Main statements: the order in which all of this happens, and the faults (`Eval.applySuffix_call`).
The frame binds names in several rounds, where a later one wins; what it holds in the end is
`Frame.Seeded`.
-/
namespace Scriptlet

/-! ## Names that are written more than once -/

namespace Table

variable {α : Type}

theorem get?_foldl_insert_of_notMem {pairs : List (String × α)} {t : Table α} {name : String}
    (h : name ∉ pairs.map (·.1)) :
    (pairs.foldl (fun t (name, value) => t.insert name value) t).get? name = t.get? name := by
  induction pairs generalizing t with
  | nil => rfl
  | cons pair pairs ih =>
    rw [List.map_cons, List.mem_cons, not_or] at h
    rw [List.foldl_cons, ih h.2, get?_insert, if_neg (Ne.symm h.1)]

theorem get?_ofList_last (before : List (String × α)) (name : String) (value : α)
    {after : List (String × α)} (h : name ∉ after.map (·.1)) :
    (ofList (before ++ (name, value) :: after)).get? name = some value := by
  rw [ofList, List.foldl_append, List.foldl_cons, get?_foldl_insert_of_notMem h, get?_insert,
    if_pos rfl]

end Table

/-! ## The frame that a body starts in -/

namespace Frame

/-- What a frame holds when the body of a function starts in it. The place of the call and the value
that the function was taken from first, which is its last receiver, are there whatever parameters
have their names. Of several parameters with one name the last one is there, and the function itself
unless a parameter has its name. The object is the last receiver that is one. -/
structure Seeded (f : Function) (callee : Value) (values : List Value) (site : Position)
    (frame : Frame) : Prop where
  names : ∀ name, frame.bindings.contains name ↔
    name ∈ [selfName, lineName, columnName] ∨ (name = thisName ∧ f.receivers ≠ []) ∨
      name ∈ f.params.map (·.name)
  line : ∃ n : Int64, n.toInt = site.line ∧
    frame.bindings.get? lineName = some ⟨.integer n, false⟩
  column : ∃ n : Int64, n.toInt = site.column ∧
    frame.bindings.get? columnName = some ⟨.integer n, false⟩
  receiver : ∀ v, f.receivers.getLast? = some v →
    frame.bindings.get? thisName = some ⟨v, false⟩
  object : ∀ before ref after, f.receivers = before ++ .object ref :: after →
    (∀ v ∈ after, v.type ≠ .object) → frame.object = some ref
  noObject : (∀ v ∈ f.receivers, v.type ≠ .object) → frame.object = none
  parameter : ∀ before param after, f.params = before ++ param :: after →
    param.name ∉ after.map (·.name) → param.name ∉ [lineName, columnName] →
    (param.name = thisName → f.receivers = []) →
    ∃ v, values[before.length]? = some v ∧
      frame.bindings.get? param.name = some ⟨v, param.mutable⟩
  self : selfName ∉ f.params.map (·.name) →
    frame.bindings.get? selfName = some ⟨callee, false⟩
  outers : frame.outers = f.code.outers

variable {f : Function} {callee : Value} {params : List Parameter} {values : List Value}
  {line column : Int64} {name : String} {frame : Frame} {receivers : List Value}

theorem get?_ofCall_of_ne (hline : name ≠ lineName) (hcolumn : name ≠ columnName) :
    (ofCall callee params values line column).bindings.get? name =
      (Table.ofList ((selfName, (⟨callee, false⟩ : Binding)) ::
        params.zipWith (fun param v => (param.name, ⟨v, param.mutable⟩)) values)).get? name := by
  rw [bindings_ofCall, Table.get?_insert, if_neg hcolumn.symm, Table.get?_insert,
    if_neg hline.symm]

theorem get?_ofCall_self (hlength : values.length = params.length)
    (h : selfName ∉ params.map (·.name)) :
    (ofCall callee params values line column).bindings.get? selfName = some ⟨callee, false⟩ := by
  rw [get?_ofCall_of_ne (by decide) (by decide)]
  rw [← map_fst_arguments hlength] at h
  exact Table.get?_ofList_last [] selfName _ h

theorem get?_ofCall_parameter {before after : List Parameter} {param : Parameter}
    (hlength : values.length = (before ++ param :: after).length)
    (h : param.name ∉ after.map (·.name)) (hsite : param.name ∉ [lineName, columnName]) :
    ∃ v, values[before.length]? = some v ∧
      (ofCall callee (before ++ param :: after) values line column).bindings.get? param.name =
        some ⟨v, param.mutable⟩ := by
  have hlt : before.length < values.length := by simp [hlength]
  obtain ⟨front, v, back, rfl, hfront⟩ : ∃ front v back, values = front ++ v :: back ∧
      front.length = before.length :=
    ⟨values.take before.length, values[before.length], values.drop (before.length + 1),
      by rw [List.getElem_cons_drop, List.take_append_drop], by simp [hlt.le]⟩
  have hback : back.length = after.length := by simpa [hfront] using hlength
  refine ⟨v, by simp [← hfront], ?_⟩
  rw [List.mem_cons, List.mem_singleton, not_or] at hsite
  rw [← map_fst_arguments hback] at h
  rw [get?_ofCall_of_ne hsite.1 hsite.2, List.zipWith_append hfront.symm, List.zipWith_cons_cons,
    ← List.cons_append]
  exact Table.get?_ofList_last _ _ _ h

theorem object_receive_of_ne {v : Value} (h : v.type ≠ .object) :
    (frame.receive v).object = frame.object := by
  cases v with
  | object ref => exact absurd rfl h
  | _ => rfl

theorem object_receiveAll_of_ne (h : ∀ v ∈ receivers, v.type ≠ .object) :
    (frame.receiveAll receivers).object = frame.object := by
  induction receivers generalizing frame with
  | nil => rfl
  | cons receiver receivers ih =>
    rw [List.forall_mem_cons] at h
    rw [receiveAll, List.foldl_cons, ← receiveAll, ih h.2, object_receive_of_ne h.1]

/-- The last receiver that is an object stays. -/
theorem object_receiveAll_last (before : List Value) (ref : ObjectRef) {after : List Value}
    (h : ∀ v ∈ after, v.type ≠ .object) :
    (frame.receiveAll (before ++ .object ref :: after)).object = some ref := by
  rw [receiveAll, List.foldl_append, List.foldl_cons, ← receiveAll, object_receiveAll_of_ne h]
  rfl

theorem get?_receiveAll_of_imp (h : name = thisName → receivers = []) :
    (frame.receiveAll receivers).bindings.get? name = frame.bindings.get? name := by
  by_cases hthis : name = thisName
  · rw [h hthis]
    rfl
  · exact get?_receiveAll_of_ne hthis

theorem seeded_of_ofCall (hlength : values.length = f.params.length) {site : Position}
    (hline : line.toInt = site.line) (hcolumn : column.toInt = site.column) :
    Seeded f callee values site
      { (ofCall callee f.params values line column).receiveAll f.receivers with
        outers := f.code.outers } where
  names name := by
    rw [contains_receiveAll, contains_ofCall hlength]
    grind
  line := ⟨line, hline, get?_line_receiveAll ..⟩
  column := ⟨column, hcolumn, get?_column_receiveAll ..⟩
  receiver v hv := get?_receiveAll_this hv
  object before ref after hreceivers hafter := by
    rw [hreceivers]
    exact object_receiveAll_last before ref hafter
  noObject h := object_receiveAll_of_ne h
  parameter before param after hparams hlast hsite hthis := by
    rw [get?_receiveAll_of_imp hthis, hparams]
    exact get?_ofCall_parameter (hparams ▸ hlength) hlast hsite
  self h := by
    rw [get?_receiveAll_of_ne (by decide)]
    exact get?_ofCall_self hlength h
  outers := rfl

end Frame

namespace Arithmetic

theorem ofNat_of_fits {n : Nat} (h : Fits n) (p : Position) :
    ∃ m : Int64, ofNat n p = .ok m ∧ m.toInt = n := by
  obtain ⟨m, hfit, hm⟩ := fit?_of_fits h
  exact ⟨m, by rw [ofNat, ofInt, hfit], hm⟩

theorem ofNat_of_not_fits {n : Nat} (h : ¬ Fits n) (p : Position) :
    ofNat n p = .error (.raised .overflow p) := by
  rw [ofNat, ofInt, fit?, if_neg h]

end Arithmetic

namespace Eval

/-! ## Arguments -/

/-- Expressions have values, once each and one after the other, in one frame. -/
inductive InTurn (evaluate : Node → FrameRef → Eval Value) (e : FrameRef) :
    List Node → State → List Value → State → Prop
  | nil {s : State} : InTurn evaluate e [] s [] s
  | cons {node : Node} {nodes : List Node} {s t u : State} {v : Value} {values : List Value} :
      evaluate node e s = .value v t → InTurn evaluate e nodes t values u →
      InTurn evaluate e (node :: nodes) s (v :: values) u

section Arguments

variable {evaluate : Node → FrameRef → Eval Value} {e : FrameRef} {node : Node}
  {nodes before after : List Node} {s t u : State} {values : List Value} {fault : Fault}

theorem InTurn.length_eq (h : InTurn evaluate e nodes s values t) :
    values.length = nodes.length := by
  induction h with
  | nil => rfl
  | cons _ _ ih => rw [List.length_cons, List.length_cons, ih]

theorem evaluateAll_append (before nodes : List Node) :
    evaluateAll evaluate e (before ++ nodes) = do
      let front ← evaluateAll evaluate e before
      let back ← evaluateAll evaluate e nodes
      return front ++ back := by
  induction before with
  | nil => simp [evaluateAll]
  | cons node before ih => simp [evaluateAll, ih]

theorem InTurn.evaluateAll_eq (h : InTurn evaluate e nodes s values t) :
    evaluateAll evaluate e nodes s = .value values t := by
  induction h with
  | nil => rfl
  | cons hnode _ ih =>
    rw [evaluateAll, bind_apply, hnode]
    dsimp only
    rw [bind_apply, ih]
    rfl

/-- The first expression that has no value ends the evaluation of all of them. -/
theorem InTurn.evaluateAll_append_cons (h : InTurn evaluate e before s values t) (node : Node)
    (after : List Node) :
    evaluateAll evaluate e (before ++ node :: after) s =
      (do
        let v ← evaluate node e
        let back ← evaluateAll evaluate e after
        return values ++ v :: back : Eval (List Value)) t := by
  rw [evaluateAll_append, bind_apply, h.evaluateAll_eq]
  simp [evaluateAll]

/-- Either all expressions have values, or there is a first one that has none. -/
theorem inTurn_or_stops (evaluate : Node → FrameRef → Eval Value) (e : FrameRef)
    (nodes : List Node) (s : State) :
    (∃ values t, InTurn evaluate e nodes s values t) ∨
      ∃ before node after values t, nodes = before ++ node :: after ∧
        InTurn evaluate e before s values t ∧ ∀ v u, evaluate node e t ≠ .value v u := by
  induction nodes generalizing s with
  | nil => exact .inl ⟨[], s, .nil⟩
  | cons node nodes ih =>
    by_cases hnode : ∃ v t, evaluate node e s = .value v t
    · obtain ⟨v, t, hv⟩ := hnode
      rcases ih t with
        ⟨values, u, hvalues⟩ | ⟨before, other, after, values, u, rfl, hvalues, hstops⟩
      · exact .inl ⟨_, u, .cons hv hvalues⟩
      · exact .inr ⟨node :: before, other, after, _, u, rfl, .cons hv hvalues, hstops⟩
    · exact .inr ⟨[], node, nodes, [], s, rfl, .nil, fun v t hv => hnode ⟨v, t, hv⟩⟩

end Arguments

/-! ## Calls -/

/-- The state `u` in which the body of a function starts, after its arguments led to `t`: there is a
frame for the call, and the call is under way. -/
structure Starts (f : Function) (callee : Value) (values : List Value) (site : Position)
    (t u : State) : Prop where
  seeded : Frame.Seeded f callee values site (u.store.frame ⟨t.store.frames.size⟩)
  size : u.store.frames.size = t.store.frames.size + 1
  frames : ∀ ref : FrameRef, ref.index < t.store.frames.size →
    u.store.frame ref = t.store.frame ref
  arrays : u.store.arrays = t.store.arrays
  objects : u.store.objects = t.store.objects
  functions : u.store.functions = t.store.functions
  depth : u.depth = t.depth + 1
  output : u.output = t.output
  events : u.events = t.events.push (.invoked f.params.length (t.depth + 1) site)

/-- How a call of `f` in the frame `e` ends, given the arguments that it needs. The first argument
without a value ends it, and those after it are not evaluated. After the arguments comes the place
of the call, which has to fit into two integers, then the number of calls under way, and then the
code of the function. -/
inductive CallOutcome (settings : Settings) (n : Nat) (callee : Value) (f : Function)
    (needed : List Node) (site : Position) (e : FrameRef) (s : State) :
    Outcome Fault Value → Prop
  | argumentFails {before after : List Node} {node : Node} {values : List Value} {t u : State}
      {fault : Fault} : needed = before ++ node :: after →
      InTurn (evaluate settings n) e before s values t →
      evaluate settings n node e t = .failure fault u →
      CallOutcome settings n callee f needed site e s (.failure fault u)
  | argumentTimesOut {before after : List Node} {node : Node} {values : List Value} {t : State} :
      needed = before ++ node :: after → InTurn (evaluate settings n) e before s values t →
      evaluate settings n node e t = .timeout →
      CallOutcome settings n callee f needed site e s .timeout
  | siteTooLarge {values : List Value} {t : State} :
      InTurn (evaluate settings n) e needed s values t →
      ¬ (Arithmetic.Fits site.line ∧ Arithmetic.Fits site.column) →
      CallOutcome settings n callee f needed site e s (.failure (.raised .overflow site) t)
  | tooDeep {values : List Value} {t : State} (frame : Frame) :
      InTurn (evaluate settings n) e needed s values t →
      Arithmetic.Fits site.line ∧ Arithmetic.Fits site.column → settings.maxDepth ≤ t.depth →
      CallOutcome settings n callee f needed site e s
        (.failure (.raised (.callDepthExceeded settings.maxDepth) site)
          { t with store := (t.store.addFrame frame).2 })
  | runs {values : List Value} {t u : State} :
      InTurn (evaluate settings n) e needed s values t → t.depth < settings.maxDepth →
      Starts f callee values site t u →
      CallOutcome settings n callee f needed site e s
        (runEntered settings (evaluate settings n) f.code ⟨t.store.frames.size⟩ u).left

theorem CallOutcome.of_value {settings : Settings} {n : Nat} {callee v : Value} {f : Function}
    {needed : List Node} {site : Position} {e : FrameRef} {s w : State}
    (h : CallOutcome settings n callee f needed site e s (.value v w)) :
    ∃ values t u, InTurn (evaluate settings n) e needed s values t ∧
      Starts f callee values site t u ∧
      (runEntered settings (evaluate settings n) f.code ⟨t.store.frames.size⟩ u).left =
        .value v w := by
  generalize hw : Outcome.value v w = outcome at h
  cases h with
  | runs hvalues _ hstarts => exact ⟨_, _, _, hvalues, hstarts, rfl⟩
  | _ => cases hw

theorem starts_called {callee : Value} {f : Function} {values : List Value} {line column : Int64}
    {site : Position} (t : State) (hlength : values.length = f.params.length)
    (hline : line.toInt = site.line) (hcolumn : column.toInt = site.column) :
    Starts f callee values site t (t.called callee f values line column site) where
  seeded := by
    rw [State.frame_called_self]
    exact Frame.seeded_of_ofCall hlength hline hcolumn
  size := State.size_frames_called t callee f values line column site
  frames ref h := State.frame_called_of_lt t callee f values line column site h
  arrays := by rw [State.store_called]
  objects := by rw [State.store_called]
  functions := State.functions_called t callee f values line column site
  depth := rfl
  output := rfl
  events := rfl

section Apply

variable {settings : Settings} {n : Nat} {ref : FunctionRef} {arguments : List Node}
  {site p : Position} {e : FrameRef} {s t : State} {values : List Value}

theorem apply_function (h : (s.store.function ref).params.length ≤ arguments.length) :
    apply (invoke settings (evaluate settings n)) (evaluate settings n) (.function ref) arguments
        site p e s =
      (do
        let f := s.store.function ref
        callWith (invoke settings (evaluate settings n)) (.function ref) f site
          (← evaluateAll (evaluate settings n) e (arguments.take f.params.length))) s := by
  change (if _ then _ else _ : Eval Value) s = _
  rw [if_neg (Nat.not_lt.2 h)]
  rfl

/-- Arguments without a parameter can be left out. -/
theorem apply_take (h : (s.store.function ref).params.length ≤ arguments.length) :
    apply (invoke settings (evaluate settings n)) (evaluate settings n) (.function ref)
        (arguments.take (s.store.function ref).params.length) site p e s =
      apply (invoke settings (evaluate settings n)) (evaluate settings n) (.function ref) arguments
        site p e s := by
  have htake : (s.store.function ref).params.length ≤
      (arguments.take (s.store.function ref).params.length).length := by
    rw [List.length_take, Nat.min_eq_left h]
  rw [apply_function h, apply_function htake]
  simp only [List.take_take, Nat.min_self]

theorem callWith_outcome {callee : Value} {f : Function} {needed : List Node}
    (hneeded : needed.length = f.params.length)
    (h : InTurn (evaluate settings n) e needed s values t) :
    CallOutcome settings n callee f needed site e s
      (callWith (invoke settings (evaluate settings n)) callee f site values t) := by
  by_cases hfits : Arithmetic.Fits site.line ∧ Arithmetic.Fits site.column
  · obtain ⟨line, hline, htoLine⟩ := Arithmetic.ofNat_of_fits hfits.1 site
    obtain ⟨column, hcolumn, htoColumn⟩ := Arithmetic.ofNat_of_fits hfits.2 site
    have hcall : callWith (invoke settings (evaluate settings n)) callee f site values t =
        (do
          let frame := .ofCall callee f.params values line column
          invoke settings (evaluate settings n) f (← add (·.addFrame frame)) site :
            Eval Value) t := by
      rw [callWith, hline, hcolumn]
      rfl
    rw [hcall]
    by_cases hdepth : settings.maxDepth ≤ t.depth
    · rw [invoke_addFrame_of_le hdepth]
      exact .tooDeep _ h hfits hdepth
    · have hdepth := Nat.not_le.1 hdepth
      rw [invoke_addFrame_of_lt hdepth]
      exact .runs h hdepth (starts_called t (h.length_eq.trans hneeded) htoLine htoColumn)
  · have hcall : callWith (invoke settings (evaluate settings n)) callee f site values t =
        .failure (.raised .overflow site) t := by
      rw [callWith]
      by_cases hline : Arithmetic.Fits site.line
      · obtain ⟨line, hok, -⟩ := Arithmetic.ofNat_of_fits hline site
        rw [hok, Arithmetic.ofNat_of_not_fits (fun hcolumn => hfits ⟨hline, hcolumn⟩)]
        rfl
      · rw [Arithmetic.ofNat_of_not_fits hline]
        rfl
    rw [hcall]
    exact .siteTooLarge h hfits

theorem apply_outcome (h : (s.store.function ref).params.length ≤ arguments.length) :
    CallOutcome settings n (.function ref) (s.store.function ref)
      (arguments.take (s.store.function ref).params.length) site e s
      (apply (invoke settings (evaluate settings n)) (evaluate settings n) (.function ref)
        arguments site p e s) := by
  rw [apply_function h, bind_apply]
  generalize hneeded : arguments.take (s.store.function ref).params.length = needed
  rcases inTurn_or_stops (evaluate settings n) e needed s with
    ⟨values, t, hvalues⟩ | ⟨before, node, after, values, t, rfl, hvalues, hstops⟩
  · rw [hvalues.evaluateAll_eq]
    have hlength : needed.length = (s.store.function ref).params.length := by
      rw [← hneeded, List.length_take, Nat.min_eq_left h]
    exact callWith_outcome hlength hvalues
  · rw [hvalues.evaluateAll_append_cons, bind_apply]
    cases hnode : evaluate settings n node e t with
    | value v u => exact absurd hnode (hstops v u)
    | failure fault u => exact .argumentFails rfl hvalues hnode
    | timeout => exact .argumentTimesOut rfl hvalues hnode

end Apply

theorem member_function {v : Value} {name : String} {p : Position} {ref : FunctionRef}
    {s t : State} (h : property v name p s = .value (.function ref) t) :
    ∃ bound u, member v name p s = .value (.function bound) u ∧
      u.store.function bound =
        { t.store.function ref with receivers := v :: (t.store.function ref).receivers } := by
  let f := { t.store.function ref with receivers := v :: (t.store.function ref).receivers }
  refine ⟨⟨t.store.functions.size⟩, { t with store := (t.store.addFunction f).2 }, ?_, ?_⟩
  · rw [member, bind_apply, h]
    rfl
  · exact (t.store.function_addFunction f _).trans (if_pos rfl)

/-- The convention of calls, for a call of `callee` in the frame `e` with its parentheses at `p`, in
an expression that starts at `site`. What is no function is refused, and so are too few arguments,
before anything is done. Otherwise as many arguments are evaluated as there are parameters, and the
others might as well not be there. What the frame of the call knows as its place is that of the node
of the call, and a function that is read from a value gets it as its outermost receiver. -/
theorem applySuffix_call (settings : Settings) (n : Nat) (callee : Value) (arguments : List Node)
    (site p : Position) (e : FrameRef) (s : State) :
    let call (arguments : List Node) := applySuffix (invoke settings (evaluate settings n))
      (evaluate settings n) site e callee ⟨.arguments arguments, p⟩
    ((∀ ref, callee ≠ .function ref) →
      call arguments s = .failure (.raised (.typeMismatch (.only .function) callee.type) p) s) ∧
    (∀ ref, callee = .function ref →
      (arguments.length < (s.store.function ref).params.length → call arguments s =
        .failure (.raised (.missingArguments (s.store.function ref).params.length
          arguments.length) p) s) ∧
      ((s.store.function ref).params.length ≤ arguments.length →
        call (arguments.take (s.store.function ref).params.length) s = call arguments s ∧
        CallOutcome settings n callee (s.store.function ref)
          (arguments.take (s.store.function ref).params.length) site e s (call arguments s))) ∧
    (∀ first suffixes, evaluate settings (n + 1) ⟨.call first suffixes, site⟩ e = do
      applySuffixes (invoke settings (evaluate settings n)) (evaluate settings n) site e
        (← evaluate settings n first e) suffixes) ∧
    ∀ v name ref t, property v name p s = .value (.function ref) t →
      ∃ bound u, member v name p s = .value (.function bound) u ∧
        u.store.function bound =
          { t.store.function ref with receivers := v :: (t.store.function ref).receivers } := by
  refine ⟨fun hcallee => ?_, fun ref hcallee => ⟨fun hfew => ?_, fun henough => ?_⟩,
    fun first suffixes => ?_, fun v name ref t h => ?_⟩
  · cases callee with
    | function ref => exact absurd rfl (hcallee ref)
    | _ => rfl
  · subst hcallee
    change (if _ then _ else _ : Eval Value) s = _
    rw [if_pos hfew]
    rfl
  · subst hcallee
    exact ⟨apply_take henough, apply_outcome henough⟩
  · rfl
  · exact member_function h

/-- Two parameters have one name and one has the name of the receiver, the function was taken from
two objects, and an argument too much has no value. -/
theorem applySuffix_call_hiddenParameters :
    let params : List Parameter := [⟨"a", false⟩, ⟨"this", true⟩, ⟨"a", true⟩]
    let f : Function := ⟨params, [.object ⟨1⟩, .object ⟨0⟩], .closure ⟨0⟩ ⟨.undefined, .start⟩⟩
    let s : State := { store := { frames := #[{}], functions := #[f] } }
    let needed : List Node := [⟨.number "1", .start⟩, ⟨.number "2", .start⟩, ⟨.number "3", .start⟩]
    let arguments := needed ++ [⟨.identifier "b", .start⟩]
    ∃ w values t u, applySuffix (invoke {} (evaluate {} 1)) (evaluate {} 1) ⟨7, 8⟩ ⟨0⟩
        (.function ⟨0⟩) ⟨.arguments arguments, ⟨7, 9⟩⟩ s = .value .undefined w ∧
      InTurn (evaluate {} 1) ⟨0⟩ needed s values t ∧
      Starts f (.function ⟨0⟩) values ⟨7, 8⟩ t u ∧
      (u.store.frame ⟨t.store.frames.size⟩).bindings.get? "this" = some ⟨.object ⟨0⟩, false⟩ := by
  intro params f s needed arguments
  obtain ⟨-, hcalls, -⟩ := applySuffix_call {} 1 (.function ⟨0⟩) arguments ⟨7, 8⟩ ⟨7, 9⟩ ⟨0⟩ s
  obtain ⟨-, henough⟩ := hcalls ⟨0⟩ rfl
  have hvalue : ∃ w, applySuffix (invoke {} (evaluate {} 1)) (evaluate {} 1) ⟨7, 8⟩ ⟨0⟩
      (.function ⟨0⟩) ⟨.arguments arguments, ⟨7, 9⟩⟩ s = .value .undefined w := ⟨_, rfl⟩
  obtain ⟨w, hvalue⟩ := hvalue
  have houtcome : CallOutcome {} 1 (.function ⟨0⟩) f needed ⟨7, 8⟩ ⟨0⟩ s
      (.value .undefined w) := by
    rw [← hvalue]
    exact (henough (by decide)).2
  obtain ⟨values, t, u, hvalues, hstarts, -⟩ := houtcome.of_value
  exact ⟨w, values, t, u, hvalue, hvalues, hstarts, hstarts.seeded.receiver _ rfl⟩

end Eval
end Scriptlet
