import Scriptlet.Proofs.Eval.Agreement
import Scriptlet.Proofs.Eval.CallFrame
import Scriptlet.Proofs.Store.Region
/-!
# Evaluations stay in their region

An evaluation in a frame of a region reads and writes in that region only, and what it adds joins
the region. Main statement: this holds of every evaluation whose way of invoking functions obeys it
(`Eval.evaluateWith_within`), and of every way that runs the code of functions on the frame of a
call (`Eval.invokeWatched_within`). Which functions are in the region and which faults an evaluation
stops with are parameters, so that an invariant of the functions that a program can get hold of only
needs a look at the functions that the language provides.
-/
namespace Scriptlet

namespace Region

variable {policy : Policy} {s : Store}

theorem holds_ofCall (R : Region policy s) {callee : Value} {values : List Value}
    (hcallee : R.Holds callee.locations) (hvalues : R.Holds (values.flatMap Value.locations))
    (params : List Parameter) (line column : Int64) :
    R.Holds (Frame.ofCall callee params values line column).locations := by
  intro l hl
  rcases Frame.mem_locations.1 hl with ⟨_, houter, -⟩ | ⟨_, hobject, -⟩ | ⟨name, b, hb, hl⟩
  · cases houter
  · cases hobject
  · rcases Frame.value_ofCall hb with heq | hmem | ⟨n, heq⟩
    · exact hcallee l (heq ▸ hl)
    · exact hvalues l (List.mem_flatMap.2 ⟨_, hmem, hl⟩)
    · rw [heq] at hl
      cases hl

end Region

theorem Arithmetic.toInt_of_ofInt {n : Int} {p : Position} {m : Int64} (h : ofInt n p = .ok m) :
    m.toInt = n := by
  rw [ofInt] at h
  split at h
  · next hfit =>
    cases h
    exact fit?_eq_some_iff.1 hfit
  · cases h

theorem Arithmetic.nonneg_of_ofNat {n : Nat} {p : Position} {m : Int64} (h : ofNat n p = .ok m) :
    0 ≤ m.toInt := by
  rw [toInt_of_ofInt h]
  exact Int.natCast_nonneg n

/-- The faults that a computation may stop with. Faults of the program are among them. -/
structure Tolerance where
  faults : Fault → Prop
  raised : ∀ cause p, faults (.raised cause p)

def Tolerance.all : Tolerance where
  faults _ := True
  raised _ _ := trivial

namespace Eval

variable {α β : Type} {policy : Policy} {tolerance : Tolerance} {s : State}

theorem bind_eq_value {m : Eval α} {f : α → Eval β} {b : β} {u : State}
    (h : (m >>= f) s = .value b u) : ∃ a t, m s = .value a t ∧ f a t = .value b u := by
  rw [bind_apply] at h
  cases hms : m s with
  | value a t =>
    rw [hms] at h
    exact ⟨a, t, rfl, h⟩
  | _ =>
    rw [hms] at h
    cases h

theorem bind_eq_failure {m : Eval α} {f : α → Eval β} {fault : Fault} {u : State}
    (h : (m >>= f) s = .failure fault u) :
    m s = .failure fault u ∨ ∃ a t, m s = .value a t ∧ f a t = .failure fault u := by
  rw [bind_apply] at h
  cases hms : m s with
  | value a t =>
    rw [hms] at h
    exact .inr ⟨a, t, rfl, h⟩
  | failure fault' t =>
    rw [hms] at h
    cases h
    exact .inl rfl
  | timeout =>
    rw [hms] at h
    cases h

/-- From `s` on, a computation extends a region, however it ends. The places of its value are in the
region then, and its fault is tolerated. -/
structure Confined (tolerance : Tolerance) (R : Region policy s.store)
    (places : α → List Location) (m : Eval α) : Prop where
  value : ∀ a t, m s = .value a t →
    ∃ R' : Region policy t.store, R.Extends R' ∧ R'.Holds (places a)
  failure : ∀ fault t, m s = .failure fault t →
    tolerance.faults fault ∧ ∃ R' : Region policy t.store, R.Extends R'

section Basic

variable {R : Region policy s.store} {places : α → List Location}

theorem Confined.of_value {m : Eval α} {a : α} {t : State} (hm : m s = .value a t)
    (h : ∃ R' : Region policy t.store, R.Extends R' ∧ R'.Holds (places a)) :
    Confined tolerance R places m where
  value a' t' h' := by
    rw [hm] at h'
    cases h'
    exact h
  failure fault t' h' := by
    rw [hm] at h'
    cases h'

theorem Confined.exists_of_final {m : Eval α} {t : State} (h : Confined tolerance R places m)
    (ht : (m s).final? = some t) : ∃ R' : Region policy t.store, R.Extends R' := by
  cases hm : m s with
  | value a u =>
    rw [hm] at ht
    cases ht
    obtain ⟨R', hext, -⟩ := h.value a t hm
    exact ⟨R', hext⟩
  | failure fault u =>
    rw [hm] at ht
    cases ht
    exact (h.failure fault t hm).2
  | timeout =>
    rw [hm] at ht
    cases ht

theorem Confined.pure {a : α} (h : R.Holds (places a)) :
    Confined tolerance R places (Pure.pure a) :=
  .of_value rfl ⟨R, .refl R, h⟩

theorem Confined.raise (cause : Fault.Cause) (p : Position) :
    Confined tolerance R places (raise cause p) where
  value a t h := by cases h
  failure fault t h := by
    cases h
    exact ⟨tolerance.raised cause p, R, .refl R⟩

theorem Confined.timeout : Confined tolerance R places timeout where
  value a t h := by cases h
  failure fault t h := by cases h

theorem Confined.bind {places' : β → List Location} {m : Eval α} {f : α → Eval β}
    (hm : Confined tolerance R places m)
    (hf : ∀ a t (R' : Region policy t.store), m s = .value a t → R.Extends R' →
      R'.Holds (places a) → Confined tolerance R' places' (f a)) :
    Confined tolerance R places' (m >>= f) := by
  constructor
  · intro b u h
    obtain ⟨a, t, hms, hfa⟩ := bind_eq_value h
    obtain ⟨R', hext, hplaces⟩ := hm.value a t hms
    obtain ⟨R'', hext', hplaces'⟩ := (hf a t R' hms hext hplaces).value b u hfa
    exact ⟨R'', hext.trans hext', hplaces'⟩
  · intro fault u h
    rcases bind_eq_failure h with hms | ⟨a, t, hms, hfa⟩
    · exact hm.failure fault u hms
    · obtain ⟨R', hext, hplaces⟩ := hm.value a t hms
      obtain ⟨hfault, R'', hext'⟩ := (hf a t R' hms hext hplaces).failure fault u hfa
      exact ⟨hfault, R'', hext.trans hext'⟩

theorem Confined.store_bind {f : Store → Eval α} (h : Confined tolerance R places (f s.store)) :
    Confined tolerance R places (store >>= f) :=
  ⟨h.value, h.failure⟩

theorem Confined.get_bind {f : State → Eval α} (h : Confined tolerance R places (f s)) :
    Confined tolerance R places (get >>= f) :=
  ⟨h.value, h.failure⟩

theorem Confined.ok_bind {a : β} {f : β → Eval α} (h : Confined tolerance R places (f a)) :
    Confined tolerance R places (lift (.ok a) >>= f) :=
  ⟨h.value, h.failure⟩

theorem Confined.lift {x : Position → Except Fault α} (hx : Placed x) (p : Position) :
    Confined tolerance R (fun _ => []) (lift (x p)) := by
  rcases hx with ⟨a, ha⟩ | ⟨cause, hcause⟩
  · rw [ha]
    exact .pure (.nil R)
  · rw [hcause]
    exact .raise cause p

theorem Confined.modifyStore {change : Store → Store}
    (h : ∃ R' : Region policy (change s.store), R.Extends R') :
    Confined tolerance R (fun _ => []) (modifyStore change) := by
  obtain ⟨R', hext⟩ := h
  exact .of_value rfl ⟨R', hext, .nil R'⟩

theorem Confined.add {change : Store → α × Store}
    (h : ∃ R' : Region policy (change s.store).2,
      R.Extends R' ∧ R'.Holds (places (change s.store).1)) :
    Confined tolerance R places (add change) :=
  .of_value rfl h

theorem Confined.emit (e : Event) : Confined tolerance R (fun _ => []) (emit e) :=
  .of_value rfl ⟨R, .refl R, .nil R⟩

theorem Confined.nested {m : Eval α}
    (h : Confined (s := { s with depth := s.depth + 1 }) tolerance R places m) :
    Confined tolerance R places (nested m) := by
  constructor
  · intro a t ht
    rw [Eval.nested] at ht
    cases hm : m { s with depth := s.depth + 1 } with
    | value b u =>
      rw [hm] at ht
      cases ht
      exact h.value a u hm
    | _ =>
      rw [hm] at ht
      cases ht
  · intro fault t ht
    rw [Eval.nested] at ht
    cases hm : m { s with depth := s.depth + 1 } with
    | failure fault' u =>
      rw [hm] at ht
      cases ht
      exact h.failure fault u hm
    | _ =>
      rw [hm] at ht
      cases ht

end Basic

/-! ## Variables and properties -/

section Variables

variable (R : Region policy s.store) {e : FrameRef}

theorem lookup_confined (he : .frame e ∈ R) (name : String) (p : Position) :
    Confined tolerance R Value.locations (lookup e name p) := by
  refine .store_bind ?_
  cases hv : s.store.get? e name with
  | none => exact .raise _ _
  | some v => exact .pure (R.holds_get? he hv)

theorem assign_confined (he : .frame e ∈ R) (name : String) {v : Value}
    (hv : R.Holds v.locations) (p : Position) :
    Confined tolerance R (fun _ => []) (assign e name v p) := by
  refine .store_bind ?_
  cases htarget : s.store.target e name with
  | ok owner => exact .modifyStore (R.exists_write (R.mem_target he htarget) hv)
  | error reason => cases reason <;> exact .raise _ _

theorem assignOrDeclare_confined (he : .frame e ∈ R) (mutable : Bool) (name : String) {v : Value}
    (hv : R.Holds v.locations) (p : Position) :
    Confined tolerance R Value.locations (assignOrDeclare e mutable name v p) := by
  refine .store_bind ?_
  cases s.store.has e name with
  | true =>
    refine .bind (assign_confined R he name hv p) fun _ t R' _ hext _ => ?_
    exact .pure (hext.holds hv)
  | false =>
    refine .bind (.emit _) fun _ t R' _ hext _ => ?_
    have hbind := R'.exists_bind name ⟨v, mutable⟩ (hext.sub _ he) (hext.holds hv)
    refine .bind (.modifyStore hbind) fun _ t R'' _ hext' _ => ?_
    exact .pure (hext'.holds (hext.holds hv))

theorem method_confined {ref : FunctionRef} {v : Value} (href : .function ref ∈ R)
    (hv : R.Holds v.locations) :
    Confined tolerance R Value.locations (do
      let f := (← store).function ref
      return .function (← add (·.addFunction { f with receivers := v :: f.receivers }))) := by
  refine .store_bind ?_
  obtain ⟨R', hext, hmem⟩ := R.exists_addFunction (R.holds_method href hv)
    (policy.method _ v (R.allows_function href))
  exact .of_value rfl ⟨R', hext, Region.holds_singleton.2 hmem⟩

theorem push_confined {ref : ArrayRef} (href : .array ref ∈ R) :
    Confined tolerance R Value.locations (do
      let push ← add (·.addFunction Builtin.push.function)
      let f := (← store).function push
      let receivers := Value.array ref :: f.receivers
      return .function (← add (·.addFunction { f with receivers }))) := by
  -- Nothing refers to the function without a receiver, so it may stay outside of the region.
  obtain ⟨R', hext⟩ := R.exists_ignoreFunction (f := Builtin.push.function) rfl
  have hlocations : R'.Holds
      ({ Builtin.push.function with receivers := [.array ref] } : Function).locations := by
    intro l hl
    have heq : l = .array ref := by
      simpa [Function.locations, Builtin.function, Value.locations] using hl
    exact heq ▸ hext.sub _ href
  obtain ⟨R'', hext', hmem⟩ := R'.exists_addFunction hlocations (policy.push ref)
  have hfunction : (s.store.addFunction Builtin.push.function).2.function
      (s.store.addFunction Builtin.push.function).1 = Builtin.push.function := by
    rw [Store.function_addFunction, if_pos rfl]
  let final := (s.store.addFunction Builtin.push.function).2.addFunction
    { Builtin.push.function with receivers := [.array ref] }
  refine .of_value (a := .function final.1) (t := { s with store := final.2 }) ?_
    ⟨R'', hext.trans hext', Region.holds_singleton.2 hmem⟩
  simp only [bind_apply, pure_apply, store, add, hfunction]
  rfl

end Variables

/-! ## One step -/

/-- A way of evaluating nodes stays in the region that the frame is in. -/
def StaysWithin (policy : Policy) (tolerance : Tolerance)
    (evaluate : Node → FrameRef → Eval Value) : Prop :=
  ∀ (s : State) (R : Region policy s.store) (node : Node) (e : FrameRef), .frame e ∈ R →
    Confined tolerance R Value.locations (evaluate node e)

/-- A way of invoking functions stays in the region that an allowed function and the values of a
call are in. -/
def CallsWithin (policy : Policy) (tolerance : Tolerance)
    (call : Function → FrameRef → Position → Eval Value) : Prop :=
  ∀ (s : State) (R : Region policy s.store) (f : Function) (callee : Value) (values : List Value)
    (line column : Int64) (p : Position),
    policy.allows (some f) → R.Holds f.locations → R.Holds callee.locations →
    R.Holds (values.flatMap Value.locations) → values.length = f.params.length →
    0 ≤ line.toInt → 0 ≤ column.toInt →
    Confined tolerance R Value.locations (do
      let inner ← add (·.addFrame (.ofCall callee f.params values line column))
      call f inner p)

/-- A state of a run in a frame, with a region that the frame is in. -/
structure Inside (policy : Policy) (e : FrameRef) where
  state : State
  region : Region policy state.store
  mem : .frame e ∈ region

def confining (policy : Policy) (tolerance : Tolerance) (e : FrameRef) : Logic where
  Index := Unit
  World := Inside policy e
  Later w w' := w.region.Extends w'.region
  Knows w l := l ∈ w.region
  frame := e
  place _ := id
  rename _ := id
  Valid w m := Confined tolerance w.region Result.locations (m ())
  later_refl w := .refl w.region
  later_trans h h' := h.trans h'
  knows_later h hl := h.sub _ hl
  pure ha := .pure (by rwa [Result.rename_id])
  bind {_ _ _ _ w _ _} hm hf := .bind hm fun a t R' _ hext ha => by
    have h := hf ⟨t, R', hext.sub _ w.mem⟩ a hext ha
    rwa [Result.rename_id] at h
  raise cause _ := .raise cause _
  lookup {w _ _} _ := lookup_confined w.region w.mem _ _
  property {w ref} name href := .store_bind <| .pure <| by
    cases h : (w.state.store.object ref).get? name with
    | none => exact .nil w.region
    | some v => exact w.region.holds_property href h
  array {w _} href := .store_bind (.pure fun l hl => w.region.closed _ href l hl)
  compare op _ _ _ := .store_bind (.lift (Store.compare_placed _ op _ _) _)
  display {w _} _ := .store_bind (.pure (.nil w.region))
  assign {w _ _ _ _ _} _ hv :=
    assignOrDeclare_confined w.region w.mem _ _ (by rwa [Value.rename_id]) _
  setProperty {w _ _} name href hv :=
    .modifyStore (w.region.exists_setProperty href (by rwa [Value.rename_id]))
  addArray {w values} hvalues := by
    have hitems : w.region.Holds (values.toArray.toList.flatMap Value.locations) := hvalues
    obtain ⟨R', hext, hmem⟩ := w.region.exists_addArray hitems
    simp only [Result.rename_id]
    exact .of_value rfl ⟨R', hext, Region.holds_singleton.2 hmem⟩
  addObject {w entries} hentries := by
    have hproperties := w.region.holds_of_get?_ofList hentries
    obtain ⟨R', hext, hmem⟩ := w.region.exists_addObject hproperties
    simp only [Result.rename_id]
    exact .of_value rfl ⟨R', hext, Region.holds_singleton.2 hmem⟩
  addClosure {w params body _} _ := by
    have hlocations : w.region.Holds
        ({ params, code := .closure e (body.relocate id) } : Function).locations :=
      Region.holds_singleton.2 w.mem
    obtain ⟨R', hext, hmem⟩ := w.region.exists_addFunction hlocations (policy.closure params e _)
    exact .of_value rfl ⟨R', hext, Region.holds_singleton.2 hmem⟩
  addPush {w _} href := push_confined w.region href
  addMethod {w _ _} href hv := method_confined w.region href (by rwa [Value.rename_id])

section Step

variable {call : Function → FrameRef → Position → Eval Value}
  {evaluate : Node → FrameRef → Eval Value} (hcall : CallsWithin policy tolerance call)

def confiningCalls {e : FrameRef} : Calls (confining policy tolerance e) fun _ => call :=
  .ofPlace (fun _ => rfl) (fun w f => policy.allows (some f) ∧ w.region.Holds f.locations)
    (fun hlater hf => ⟨hf.1, hlater.holds hf.2⟩)
    (fun {w _ _} href hk => .store_bind <|
      hk _ ⟨w.region.allows_function href, w.region.holds_function href⟩) <| by
    rintro w ref f site line column values - href ⟨hallows, hf⟩ hvalues hlength hline hcolumn
    have h := hcall w.state w.region f (.function ref) values line column site hallows hf
      (Region.holds_singleton.2 href) hvalues hlength (Arithmetic.nonneg_of_ofNat hline)
      (Arithmetic.nonneg_of_ofNat hcolumn)
    rwa [← Result.rename_id values] at h

include hcall

theorem step_confined (hev : StaysWithin policy tolerance evaluate) (R : Region policy s.store)
    {e : FrameRef} (he : .frame e ∈ R) (rounds : Nat) (node : Node) :
    Confined tolerance R Value.locations (step call evaluate rounds node e) := by
  have hstep : (confining policy tolerance e).Valid ⟨s, R, he⟩ fun _ =>
      step call evaluate rounds node e :=
    step_valid_of_place (fun _ => rfl) (confiningCalls hcall).applies
      (loops_of_timeout (fun _ => Confined.timeout) rounds) trivial
      fun w _ child _ => hev w.state w.region child e w.mem
  exact hstep

end Step

/-! ## Provided functions -/

theorem fail_confined (R : Region policy s.store) (fault : Fault) {α : Type}
    {places : α → List Location} : Confined .all R places (fail fault) where
  value a t h := by cases h
  failure fault t h := by
    cases h
    exact ⟨trivial, R, .refl R⟩

theorem coordinate_confined (R : Region policy s.store) {frame : FrameRef} (h : .frame frame ∈ R)
    (name : String) : Confined .all R (fun _ => []) (coordinate frame name) := by
  refine .bind (lookup_confined R h name _) fun v t R' _ _ _ => ?_
  refine .bind (.lift v.toInteger_placed _) fun n u R'' _ _ _ => ?_
  cases Arithmetic.toNat? n with
  | none => exact fail_confined R'' _
  | some k => exact .pure (.nil R'')

theorem writeLine_confined (R : Region policy s.store) (sink : Sink) (text : String) :
    Confined .all R (fun _ => []) (writeLine sink text) := by
  cases sink with
  | ready => exact .of_value rfl ⟨R, .refl R, .nil R⟩
  | closed reason => exact fail_confined R _
  | busy => exact fail_confined R _

theorem builtin_confined (R : Region policy s.store) {frame : FrameRef} (h : .frame frame ∈ R)
    (settings : Settings) (b : Builtin) :
    Confined .all R Value.locations (b.run settings frame) := by
  have hsite : Confined .all R (fun _ => []) (callSite frame) := by
    refine .bind (coordinate_confined R h _) fun _ t R₁ _ hext₁ _ => ?_
    refine .bind (coordinate_confined R₁ (hext₁.sub _ h) _) fun _ u R₂ _ _ _ => ?_
    exact .pure (.nil R₂)
  refine .bind hsite fun p t R₁ _ hext₁ _ => ?_
  have h₁ := hext₁.sub _ h
  cases b with
  | puts =>
    refine .bind (lookup_confined R₁ h₁ _ p) fun v u R₂ _ _ _ => .store_bind ?_
    exact .bind (writeLine_confined R₂ _ _) fun _ w R₃ _ _ _ => .pure (.nil R₃)
  | assert =>
    refine .bind (lookup_confined R₁ h₁ _ p) fun v u R₂ _ _ _ => ?_
    cases v.truthy with
    | true => exact .pure (.nil R₂)
    | false => exact .raise _ _
  | push =>
    refine .bind (lookup_confined R₁ h₁ _ p) fun receiver u R₂ _ hext₂ hreceiver => ?_
    refine .bind (lookup_confined R₂ (hext₂.sub _ h₁) _ p) fun v w R₃ _ hext₃ hv => ?_
    cases receiver with
    | array ref =>
      have href : .array ref ∈ R₃ := hext₃.sub _ (Region.holds_singleton.1 hreceiver)
      refine .ok_bind ?_
      by_cases hheld : settings.held = some ref
      · simp only [hheld, if_true]
        have hfail : Confined .all R₃ (fun _ => []) (fail (.internal .busyArray) : Eval Unit) :=
          fail_confined R₃ _
        exact .bind hfail fun _ w R₄ hw _ _ => by cases hw
      · simp only [hheld, if_false]
        refine .bind (.modifyStore (R₃.exists_pushItem href hv)) fun _ w R₄ _ hext₄ _ => ?_
        exact .pure (hext₄.holds (hext₃.holds hreceiver))
    | _ => exact .raise _ _

/-! ## Calls and evaluations -/

section Calls

variable {settings : Settings} {watch : Code → Eval Value → Eval Value}

/-- What a provided function has to do to stay in a region, when it is invoked by the language. -/
def BuiltinsWithin (policy : Policy) (tolerance : Tolerance)
    (run : Builtin → FrameRef → Eval Value) : Prop :=
  ∀ (s : State) (R : Region policy s.store) (f : Function) (b : Builtin) (frame : FrameRef),
    f.code = .builtin b → policy.allows (some f) → .frame frame ∈ R →
    IsCallFrame f (s.store.frame frame) → Confined tolerance R Value.locations (run b frame)

variable {evaluate : Node → FrameRef → Eval Value}
  (hwatch : ∀ outer body m, watch (.closure outer body) m = m)
  (hbuiltin : BuiltinsWithin policy tolerance fun b frame =>
    watch (.builtin b) (b.run settings frame))
  (hev : StaysWithin policy tolerance evaluate)

include hwatch hbuiltin hev

theorem runCode_confined (R : Region policy s.store) {f : Function} {frame : FrameRef}
    (hallows : policy.allows (some f)) (hf : R.Holds f.locations) (hframe : .frame frame ∈ R)
    (hcall : IsCallFrame f (s.store.frame frame)) :
    Confined tolerance R Value.locations
      (watch f.code (runCode settings evaluate f.code frame)) := by
  cases hcode : f.code with
  | closure outer body =>
    have houter : .frame outer ∈ R :=
      hf _ (Function.mem_locations.2 (.inr ⟨outer, body, hcode, rfl⟩))
    rw [hwatch]
    refine .bind (.modifyStore (R.exists_appendOuter hframe houter)) fun _ t R' _ hext _ => ?_
    exact hev t R' body frame (hext.sub _ hframe)
  | builtin b => exact hbuiltin s R f b frame hcode hallows hframe hcall

theorem invokeWatched_confined (R : Region policy s.store) {f : Function} {frame : FrameRef}
    {callee : Value} {values : List Value} {line column : Int64}
    (hallows : policy.allows (some f)) (hf : R.Holds f.locations) (hframe : .frame frame ∈ R)
    (hlt : frame.index < s.store.frames.size)
    (hbindings : s.store.frame frame = .ofCall callee f.params values line column)
    (hlength : values.length = f.params.length) (hline : 0 ≤ line.toInt)
    (hcolumn : 0 ≤ column.toInt) (p : Position) :
    Confined tolerance R Value.locations (invokeWatched watch settings evaluate f frame p) := by
  refine .get_bind ?_
  by_cases hlimit : settings.maxDepth ≤ s.depth
  · rw [if_pos hlimit]
    exact .raise _ _
  · rw [if_neg hlimit]
    refine .nested (.get_bind (.bind (.emit _) fun _ t R₁ ht hext₁ _ => ?_))
    cases ht
    have hreceivers : R₁.Holds (f.receivers.flatMap Value.locations) :=
      fun l hl => hext₁.holds hf l (List.mem_append_left _ hl)
    have hreceive := R₁.exists_receiveAll (hext₁.sub _ hframe) hreceivers
    refine .bind (.modifyStore hreceive) fun _ u R₂ hu hext₂ _ => ?_
    cases hu
    have hext := hext₁.trans hext₂
    apply runCode_confined hwatch hbuiltin hev R₂ hallows (hext.holds hf) (hext.sub _ hframe)
    have hentered : (s.store.receiveAll frame f.receivers).frame frame =
        (Frame.ofCall callee f.params values line column).receiveAll f.receivers := by
      rw [Store.frame_receiveAll hlt, hbindings]
    exact hentered ▸ .intro callee values line column hlength hline hcolumn

theorem invokeWatched_within :
    CallsWithin policy tolerance (invokeWatched watch settings evaluate) := by
  intro s R f callee values line column p hallows hf hcallee hvalues hlength hline hcolumn
  obtain ⟨R₁, hext₁, hmem⟩ :=
    R.exists_addFrame (R.holds_ofCall hcallee hvalues f.params line column)
  have hadd : Confined tolerance R (fun inner => [.frame inner])
      (add (·.addFrame (.ofCall callee f.params values line column))) :=
    .add ⟨R₁, hext₁, Region.holds_singleton.2 hmem⟩
  refine .bind hadd fun inner t R' ht hext hinner => ?_
  cases ht
  exact invokeWatched_confined hwatch hbuiltin hev R' hallows (hext.holds hf)
    (Region.holds_singleton.1 hinner) (s.store.lt_size_addFrame _)
    (s.store.frame_addFrame_self _) hlength hline hcolumn p

end Calls

/-- Evaluations stay in a region if their way of invoking functions does, as soon as the evaluations
inside it stay in their regions. -/
theorem evaluateWith_within
    {invoke : (Node → FrameRef → Eval Value) → Function → FrameRef → Position → Eval Value}
    (hinvoke : ∀ evaluate, StaysWithin policy tolerance evaluate →
      CallsWithin policy tolerance (invoke evaluate)) (n : Nat) :
    StaysWithin policy tolerance (evaluateWith invoke n) := by
  induction n with
  | zero => exact fun s R node e he => .timeout
  | succ n ih => exact fun s R node e he => step_confined (hinvoke _ ih) ih R he n node

theorem evaluate_within (policy : Policy) (settings : Settings) (n : Nat) :
    StaysWithin policy .all (evaluate settings n) := by
  rw [evaluate_eq_evaluateWith, ← invokeWatched_eq_invoke]
  apply evaluateWith_within
  intro evaluate hev
  apply invokeWatched_within (fun _ _ _ => rfl) ?_ hev
  intro s R f b frame _ _ hframe _
  exact builtin_confined R hframe settings b

end Eval
end Scriptlet
