import Scriptlet.Proofs.Eval.CallDepth
import Scriptlet.Proofs.Eval.Walk
import Scriptlet.Proofs.Store.Tame
/-!
# Programs without loops end

A program can call itself through variables, stored functions and receivers, so its tree does not
get smaller at a call; but the number of calls under way is limited. Main statement: an evaluation
in a tame region ends, with a value or with a fault (`Eval.evaluate_loopless_ends`). The induction
is on the calls that are still allowed and, for each of them, on the tree; what carries it is that
all functions within reach are free of loops and that searches for names come to an end. The bound
on the depth of such a search is never reached, and neither is the one on the depth of a display.
-/
namespace Scriptlet

/-! ## Displays -/

def Store.HasContainer (s : Store) (v : Value) : Prop :=
  (∃ i, i < s.arrays.size ∧ v = .array ⟨i⟩) ∨ ∃ i, i < s.objects.size ∧ v = .object ⟨i⟩

namespace Store

variable {s : Store}

theorem length_le_of_hasContainer {path : List Value} (hn : path.Nodup)
    (h : ∀ v ∈ path, s.HasContainer v) : path.length ≤ s.arrays.size + s.objects.size := by
  have hsub : path ⊆ (List.range s.arrays.size).map (fun i => .array ⟨i⟩) ++
      (List.range s.objects.size).map fun i => .object ⟨i⟩ := by
    intro v hv
    simpa [HasContainer, eq_comm] using h v hv
  simpa using (List.subperm_of_subset hn hsub).length_le

/-- The induction is on the depth that is left. What stands around a place of the view are different
arrays and objects of the store. -/
theorem viewWithin_succ (n : Nat) (path : List Value) (v : Value) (hn : path.Nodup)
    (hpath : ∀ v ∈ path, s.HasContainer v)
    (hdepth : s.arrays.size + s.objects.size < n + path.length) :
    s.viewWithin (n + 1) path v = s.viewWithin n path v := by
  induction n generalizing path v with
  | zero =>
    have := length_le_of_hasContainer hn hpath
    omega
  | succ n ih =>
    cases v with
    | array ref =>
      rw [viewWithin, viewWithin]
      split
      · rfl
      · next hnew =>
        congr 1
        apply List.map_congr_left
        intro w hw
        refine ih _ w (List.nodup_cons.2 ⟨by simpa using hnew, hn⟩) ?_ ?_
        · exact List.forall_mem_cons.2 ⟨.inl ⟨ref.index, lt_of_mem_array hw, rfl⟩, hpath⟩
        · rw [List.length_cons]
          omega
    | object ref =>
      rw [viewWithin, viewWithin]
      split
      · rfl
      · next hnew =>
        congr 1
        apply List.map_congr_left
        rintro ⟨name, w⟩ hw
        refine congrArg (name, ·) ?_
        refine ih _ w (List.nodup_cons.2 ⟨by simpa using hnew, hn⟩) ?_ ?_
        · exact List.forall_mem_cons.2 ⟨.inr ⟨ref.index, lt_of_mem_object hw, rfl⟩, hpath⟩
        · rw [List.length_cons]
          omega
    | _ => rfl

theorem viewWithin_eq_view (s : Store) (v : Value) (n : Nat)
    (h : s.arrays.size + s.objects.size < n) : s.viewWithin n [] v = s.view v := by
  induction n, h using Nat.le_induction with
  | base => rfl
  | succ n h ih => rw [viewWithin_succ n [] v List.nodup_nil (by simp) h, ih]

end Store

namespace Eval

variable {α β : Type}

/-! ## Computations that settle -/

/-- A test that frames pass if searches from them come to an end. -/
structure Guard where
  admits : Store → FrameRef → Bool
  sound : ∀ s ref, s.searchEnds ref = true → admits s ref = true

/-- Evaluates as `evaluate` does, but gives up where a node is evaluated or a function is invoked in
a frame that does not pass a test, before or after. -/
def evaluateGuarded (admits : Store → FrameRef → Bool) (settings : Settings) :
    Nat → Node → FrameRef → Eval Value
  | 0, _, _ => timeout
  | n + 1, node, frame =>
    let evaluate := evaluateGuarded admits settings n
    let call f inner p := guarded (admits ·.store inner) (invoke settings evaluate f inner p)
    guarded (admits ·.store frame) (step call evaluate n node frame)

theorem guarded_true (m : Eval α) : guarded (fun _ => true) m = m := by
  funext s
  rw [guarded, Bool.true_and, if_pos (by cases (m s).final? <;> rfl)]

theorem evaluate_eq_evaluateGuarded (settings : Settings) :
    evaluate settings = evaluateGuarded (fun _ _ => true) settings := by
  funext n
  induction n with
  | zero => rfl
  | succ n ih =>
    funext node frame
    simp only [evaluate, evaluateGuarded, guarded_true, ih]

variable {s : State}

/-- An outcome other than running out of steps, in a tame region that extends the one at the start.
The places of a value are in that region, and as many calls are under way as at the start. -/
inductive Lands (T : TameRegion s.store) (places : α → List Location) : Outcome Fault α → Prop
  | value {a : α} {t : State} (T' : TameRegion t.store) : t.depth = s.depth →
      T.Extends T'.toRegion → T'.Holds (places a) → Lands T places (.value a t)
  | failure {fault : Fault} {t : State} (T' : TameRegion t.store) :
      T.Extends T'.toRegion → Lands T places (.failure fault t)

/-- With enough steps a computation ends, whatever test it is guarded by. -/
def Settles (T : TameRegion s.store) (places : α → List Location)
    (m : Guard → Nat → Eval α) : Prop :=
  ∃ outcome, Lands T places outcome ∧ ∃ n, ∀ guard k, n ≤ k → m guard k s = outcome

section Basic

variable {T : TameRegion s.store} {places : α → List Location} {places' : β → List Location}

theorem Settles.of_value {m : Eval α} {a : α} {t : State} (hm : m s = .value a t)
    (hdepth : t.depth = s.depth) {T' : TameRegion t.store} (hext : T.Extends T'.toRegion)
    (hplaces : T'.Holds (places a)) : Settles T places fun _ _ => m :=
  ⟨_, .value T' hdepth hext hplaces, 0, fun _ _ _ => hm⟩

theorem Settles.pure {a : α} (h : T.Holds (places a)) :
    Settles T places fun _ _ => Pure.pure a :=
  .of_value (t := s) rfl rfl (.refl _) h

theorem Settles.fail (fault : Fault) : Settles T places fun _ _ => fail fault :=
  ⟨_, .failure T (.refl _), 0, fun _ _ _ => rfl⟩

theorem Settles.raise (cause : Fault.Cause) (p : Position) :
    Settles T places fun _ _ => raise cause p :=
  .fail _

theorem Settles.lift (x : Except Fault α) : Settles T (fun _ => []) fun _ _ => lift x := by
  cases x with
  | ok a => exact .pure (.nil _)
  | error fault => exact .fail fault

theorem Lands.of_extends {t : State} {T' : TameRegion t.store} {outcome : Outcome Fault α}
    (h : Lands T' places outcome) (hdepth : t.depth = s.depth) (hext : T.Extends T'.toRegion) :
    Lands T places outcome := by
  cases h with
  | value T'' hdepth' hext' hplaces =>
    exact .value T'' (hdepth'.trans hdepth) (hext.trans hext') hplaces
  | failure T'' hext' => exact .failure T'' (hext.trans hext')

theorem Settles.bind {m : Guard → Nat → Eval α} {f : Guard → Nat → α → Eval β}
    (hm : Settles T places m)
    (hf : ∀ a (t : State) (T' : TameRegion t.store), t.depth = s.depth → T.Extends T'.toRegion →
      T'.Holds (places a) → Settles T' places' fun guard k => f guard k a) :
    Settles T places' fun guard k => m guard k >>= f guard k := by
  obtain ⟨outcome, hlands, n, hn⟩ := hm
  cases hlands with
  | @value a t T' hdepth hext hplaces =>
    obtain ⟨outcome, hlands, n', hn'⟩ := hf a t T' hdepth hext hplaces
    refine ⟨outcome, hlands.of_extends hdepth hext, max n n', fun guard k hk => ?_⟩
    change (m guard k >>= f guard k) s = outcome
    rw [bind_apply, hn guard k (by omega)]
    exact hn' guard k (by omega)
  | @failure fault t T' hext =>
    refine ⟨.failure fault t, .failure T' hext, n, fun guard k hk => ?_⟩
    change (m guard k >>= f guard k) s = .failure fault t
    rw [bind_apply, hn guard k hk]

theorem Settles.value_bind {m : Eval α} {f : Guard → Nat → α → Eval β} {a : α} {t : State}
    (hm : m s = .value a t) (hdepth : t.depth = s.depth) {T' : TameRegion t.store}
    (hext : T.Extends T'.toRegion) (hf : Settles T' places' fun guard k => f guard k a) :
    Settles T places' fun guard k => m >>= f guard k := by
  obtain ⟨outcome, hlands, n, hn⟩ := hf
  refine ⟨outcome, hlands.of_extends hdepth hext, n, fun guard k hk => ?_⟩
  change (m >>= f guard k) s = outcome
  rw [bind_apply, hm]
  exact hn guard k hk

theorem Settles.modifyStore {change : Store → Store} (hquiet : s.store.Quiet (change s.store))
    (h : ∃ R : Region .all (change s.store), T.Extends R) :
    Settles T (fun _ => []) fun _ _ => modifyStore change := by
  obtain ⟨R, hext⟩ := h
  obtain ⟨T', rfl⟩ := T.exists_of_quiet hext hquiet
  exact .of_value (t := { s with store := change s.store }) rfl rfl hext (.nil _)

theorem Settles.add {change : Store → α × Store} (hquiet : s.store.Quiet (change s.store).2)
    (h : ∃ R : Region .all (change s.store).2,
      T.Extends R ∧ R.Holds (places (change s.store).1)) :
    Settles T places fun _ _ => add change := by
  obtain ⟨R, hext, hplaces⟩ := h
  obtain ⟨T', rfl⟩ := T.exists_of_quiet hext hquiet
  exact .of_value (t := { s with store := (change s.store).2 }) rfl rfl hext hplaces

theorem Settles.nested {m : Guard → Nat → Eval α}
    (h : Settles (s := { s with depth := s.depth + 1 }) T places m) :
    Settles T places fun guard k => nested (m guard k) := by
  obtain ⟨outcome, hlands, n, hn⟩ := h
  cases hlands with
  | @value a t T' hdepth hext hplaces =>
    refine ⟨.value a { t with depth := t.depth - 1 }, .value T' ?_ hext hplaces, n, ?_⟩
    · rw [hdepth, Nat.add_sub_cancel]
    · intro guard k hk
      change Eval.nested (m guard k) s = _
      rw [Eval.nested, hn guard k hk]
  | @failure fault t T' hext =>
    refine ⟨.failure fault { t with depth := t.depth - 1 }, .failure T' hext, n, ?_⟩
    intro guard k hk
    change Eval.nested (m guard k) s = _
    rw [Eval.nested, hn guard k hk]

theorem Settles.guarded {m : Guard → Nat → Eval α} {e : FrameRef} (he : .frame e ∈ T.toRegion)
    (h : Settles T places m) :
    Settles T places fun guard k => guarded (guard.admits ·.store e) (m guard k) := by
  obtain ⟨outcome, hlands, n, hn⟩ := h
  refine ⟨outcome, hlands, n, fun guard k hk => ?_⟩
  have hpass : ∀ {t : State} (T' : TameRegion t.store), T.Extends T'.toRegion →
      guard.admits t.store e = true :=
    fun T' hext => guard.sound _ e (T'.searchEnds (hext.sub _ he))
  have hfinal : outcome.final?.all (guard.admits ·.store e) = true := by
    cases hlands with
    | value T' _ hext _ => exact hpass T' hext
    | failure T' hext => exact hpass T' hext
  change Eval.guarded (guard.admits ·.store e) (m guard k) s = outcome
  rw [Eval.guarded, hn guard k hk, hpass T (.refl _), hfinal]
  rfl

theorem Settles.of_succ {m : Guard → Nat → Eval α}
    (h : Settles T places fun guard k => m guard (k + 1)) : Settles T places m := by
  obtain ⟨outcome, hlands, n, hn⟩ := h
  refine ⟨outcome, hlands, n + 1, fun guard k hk => ?_⟩
  obtain ⟨k, rfl⟩ : ∃ k', k = k' + 1 := ⟨k - 1, by omega⟩
  exact hn guard k (by omega)

theorem Settles.store_bind {f : Guard → Nat → Store → Eval α}
    (h : Settles T places fun guard k => f guard k s.store) :
    Settles T places fun guard k => store >>= f guard k :=
  h

theorem Settles.get_bind {f : Guard → Nat → State → Eval α}
    (h : Settles T places fun guard k => f guard k s) :
    Settles T places fun guard k => get >>= f guard k :=
  h

end Basic

/-! ## Variables and properties -/

section Variables

variable (T : TameRegion s.store) {e : FrameRef}

theorem lookup_settles (he : .frame e ∈ T.toRegion) (name : String) (p : Position) :
    Settles T Value.locations fun _ _ => lookup e name p := by
  refine .store_bind ?_
  cases hv : s.store.get? e name with
  | none => exact .raise _ _
  | some v => exact .pure (T.holds_get? he hv)

theorem assignOrDeclare_settles (he : .frame e ∈ T.toRegion) (mutable : Bool) (name : String)
    {v : Value} (hv : T.Holds v.locations) (p : Position) :
    Settles T Value.locations fun _ _ => assignOrDeclare e mutable name v p := by
  refine .store_bind ?_
  cases s.store.has e name with
  | true =>
    have hassign : Settles T (fun _ => []) fun _ _ => assign e name v p := by
      refine .store_bind ?_
      cases htarget : s.store.target e name with
      | ok owner =>
        exact .modifyStore (.write s.store name v owner)
          (T.exists_write (T.mem_target he htarget) hv)
      | error reason => cases reason <;> exact .raise _ _
    exact .bind hassign fun _ t T' _ hext _ => .pure (hext.holds hv)
  | false =>
    refine .value_bind (t := s.emit (.declared name mutable p)) rfl rfl (.refl _) ?_
    refine .bind (.modifyStore (.bind s.store e name _) (T.exists_bind name _ he hv)) ?_
    exact fun _ t T' _ hext _ => .pure (hext.holds hv)

theorem addFunction_settles {f : Function} (hlocations : T.Holds f.locations)
    (hloopless : f.Loopless) :
    Settles T Value.locations fun _ _ => do return .function (← add (·.addFunction f)) := by
  obtain ⟨R, hext, hmem⟩ := T.exists_addFunction hlocations trivial
  have hadd : Settles T (fun ref => [.function ref]) fun _ _ => add (·.addFunction f) :=
    .add (.addFunction s.store hloopless) ⟨R, hext, Region.holds_singleton.2 hmem⟩
  exact .bind hadd fun ref t T' _ _ hplaces => .pure hplaces

theorem addMethod_settles {ref : FunctionRef} {v : Value} (href : .function ref ∈ T.toRegion)
    (hv : T.Holds v.locations) :
    Settles T Value.locations fun _ _ => do
      let f := (← store).function ref
      return .function (← add (·.addFunction { f with receivers := v :: f.receivers })) :=
  .store_bind (addFunction_settles T (T.holds_method href hv) (T.loopless ref href))

end Variables

/-! ## One step -/

section Step

/-- With `d` calls under way, the evaluation of a node in a tame region ends. -/
def EndsAt (d : Nat) (evaluate : Guard → Nat → Node → FrameRef → Eval Value) (node : Node) :
    Prop :=
  ∀ (s : State) (T : TameRegion s.store) (e : FrameRef), s.depth = d → .frame e ∈ T.toRegion →
    Settles T Value.locations fun guard k => evaluate guard k node e

def CallsEndAt (d : Nat) (call : Guard → Nat → Function → FrameRef → Position → Eval Value) :
    Prop :=
  ∀ (s : State) (T : TameRegion s.store) (f : Function) (callee : Value) (values : List Value)
    (line column : Int64) (p : Position), s.depth = d → f.Loopless → T.Holds f.locations →
    T.Holds callee.locations → T.Holds (values.flatMap Value.locations) →
    Settles T Value.locations fun guard k => do
      let inner ← add (·.addFrame (.ofCall callee f.params values line column))
      call guard k f inner p

/-- A state of a run in a frame, with `d` calls under way and a tame region that the frame is in. -/
structure InsideTame (d : Nat) (e : FrameRef) where
  state : State
  region : TameRegion state.store
  depth : state.depth = d
  mem : .frame e ∈ region.toRegion

/-- Ending, said of a computation, whatever test it is guarded by and however many steps more than
it needs it may take. -/
def settling (d : Nat) (e : FrameRef) : Logic where
  Index := Guard × Nat
  World := InsideTame d e
  Later w w' := w.region.Extends w'.region.toRegion
  Knows w l := l ∈ w.region.toRegion
  Evaluates _ node := node.Loopless
  frame := e
  place _ := id
  rename _ := id
  Valid w m := Settles w.region Result.locations fun guard k => m (guard, k)
  later_refl w := .refl w.region.toRegion
  later_trans h h' := h.trans h'
  knows_later h hl := h.sub _ hl
  evaluates_child {_ node child} h hchild := by
    obtain ⟨kind, p⟩ := node
    exact (Node.loopless_mk.1 h).2 child hchild
  pure ha := .pure (by rwa [Result.rename_id])
  bind {_ _ _ _ w _ _} hm hf := .bind hm fun a t T' ht hext ha => by
    have h := hf ⟨t, T', ht.trans w.depth, hext.sub _ w.mem⟩ a hext ha
    simpa only [Result.rename_id] using h
  raise cause _ := .raise cause _
  lookup {w _ _} _ := lookup_settles w.region w.mem _ _
  property {w ref} name href := .store_bind <| .pure <| by
    cases h : (w.state.store.object ref).get? name with
    | none => exact .nil _
    | some v => exact w.region.holds_property href h
  array {w _} href := .store_bind (.pure fun l hl => w.region.closed _ href l hl)
  compare op _ _ _ := .store_bind (.lift _)
  display _ := .store_bind (.pure (.nil _))
  assign {w _ _ _ _ _} _ hv :=
    assignOrDeclare_settles w.region w.mem _ _ (by rwa [Value.rename_id]) _
  setProperty {w ref v} name href hv :=
    .modifyStore (.write w.state.store name _ (.property ref))
      (w.region.exists_setProperty href (by rwa [Value.rename_id]))
  addArray {w values} hvalues := by
    have hitems : w.region.Holds (values.toArray.toList.flatMap Value.locations) := hvalues
    obtain ⟨R, hext, hmem⟩ := w.region.exists_addArray hitems
    have hadd : Settles w.region (fun ref => [.array ref]) fun _ _ =>
        add (·.addArray values.toArray) :=
      .add ⟨fun _ => rfl, fun _ => .inl rfl⟩ ⟨R, hext, Region.holds_singleton.2 hmem⟩
    simp only [Result.rename_id]
    exact .bind hadd fun _ _ _ _ _ hplaces => .pure hplaces
  addObject {w entries} hentries := by
    have hproperties := w.region.holds_of_get?_ofList hentries
    obtain ⟨R, hext, hmem⟩ := w.region.exists_addObject hproperties
    have hadd : Settles w.region (fun ref => [.object ref]) fun _ _ =>
        add (·.addObject (.ofList entries)) :=
      .add ⟨fun _ => rfl, fun _ => .inl rfl⟩ ⟨R, hext, Region.holds_singleton.2 hmem⟩
    simp only [Result.rename_id]
    exact .bind hadd fun _ _ _ _ _ hplaces => .pure hplaces
  addClosure {w params body _} hnode := by
    simp only [Node.relocate_id]
    refine addFunction_settles w.region (Region.holds_singleton.2 w.mem) ?_
    rintro frame body ⟨⟩
    exact (Node.loopless_mk.1 hnode).2 body (List.mem_singleton_self body)
  addPush {w ref} href := by
    obtain ⟨R, hext, hmem⟩ := w.region.exists_addFunction (f := Builtin.push.function) (.nil _)
      trivial
    have hadd : Settles w.region (fun ref => [.function ref]) fun _ _ =>
        add (·.addFunction Builtin.push.function) :=
      .add (.addFunction w.state.store Builtin.push.function_loopless)
        ⟨R, hext, Region.holds_singleton.2 hmem⟩
    refine .bind hadd fun push t T _ hext hplaces => ?_
    exact addMethod_settles T (v := .array ref) (Region.holds_singleton.1 hplaces)
      (Region.holds_singleton.2 (hext.sub _ href))
  addMethod {w _ _} href hv := addMethod_settles w.region href (by rwa [Value.rename_id])

variable {call : Guard → Nat → Function → FrameRef → Position → Eval Value}
  {evaluate : Guard → Nat → Node → FrameRef → Eval Value} {d : Nat}

def settlingCalls {e : FrameRef} (hcall : CallsEndAt d call) :
    Calls (settling d e) fun (guard, k) => call guard k :=
  .ofPlace (fun _ => rfl) (fun w f => f.Loopless ∧ w.region.Holds f.locations)
    (fun hlater hf => ⟨hf.1, hlater.holds hf.2⟩)
    (fun {w ref _} href hk => .store_bind <|
      hk _ ⟨w.region.loopless ref href, w.region.holds_function href⟩) <| by
    rintro w ref f site line column values - href ⟨hloopless, hf⟩ hvalues - - -
    have h := hcall w.state w.region f (.function ref) values line column site w.depth hloopless hf
      (Region.holds_singleton.2 href) hvalues
    rwa [← Result.rename_id values] at h

theorem step_settles (hcall : CallsEndAt d call) (T : TameRegion s.store) (hs : s.depth = d)
    {e : FrameRef} (he : .frame e ∈ T.toRegion) {node : Node} (hnode : node.Loopless)
    (hev : ∀ child ∈ node.kind.children, EndsAt d evaluate child) :
    Settles T Value.locations fun guard k =>
      step (call guard k) (evaluate guard k) k node e := by
  have hloop : Loops (settling d e) fun (_, k) => k :=
    fun hloop => Bool.noConfusion (Node.loopless_mk.1 hloop).1
  have hstep : (settling d e).Valid ⟨s, T, hs, he⟩ fun (guard, k) =>
      step (call guard k) (evaluate guard k) k node e :=
    step_valid_of_place (fun _ => rfl) (settlingCalls hcall).applies hloop hnode
      fun w _ child hchild => hev child hchild w.state w.region e w.depth w.mem
  exact hstep

end Step

/-! ## Calls -/

section Calls

theorem builtin_settles (T : TameRegion s.store) {frame : FrameRef} (h : .frame frame ∈ T.toRegion)
    (settings : Settings) (b : Builtin) :
    Settles T Value.locations fun _ _ => b.run settings frame := by
  have hcoordinate : ∀ {s : State} (T : TameRegion s.store) (name : String),
      .frame frame ∈ T.toRegion → Settles T (fun _ => []) fun _ _ => coordinate frame name := by
    intro s T name h
    refine .bind (lookup_settles T h name _) fun v t T₁ _ _ _ => ?_
    refine .bind (.lift _) fun n u T₂ _ _ _ => ?_
    cases Arithmetic.toNat? n with
    | none => exact .fail _
    | some k => exact .pure (.nil _)
  have hsite : Settles T (fun _ => []) fun _ _ => callSite frame := by
    refine .bind (hcoordinate T _ h) fun _ t T₁ _ hext₁ _ => ?_
    refine .bind (hcoordinate T₁ _ (hext₁.sub _ h)) fun _ u T₂ _ _ _ => ?_
    exact .pure (.nil _)
  refine .bind hsite fun p t T₁ _ hext₁ _ => ?_
  have h₁ := hext₁.sub _ h
  cases b with
  | puts =>
    refine .bind (lookup_settles T₁ h₁ _ p) fun v u T₂ _ _ _ => .store_bind ?_
    have hwrite : Settles T₂ (fun _ => []) fun _ _ =>
        writeLine settings.sink (u.store.display v) := by
      cases settings.sink with
      | ready => exact .of_value rfl rfl (.refl T₂.toRegion) (.nil _)
      | closed reason => exact .fail _
      | busy => exact .fail _
    exact .bind hwrite fun _ w T₃ _ _ _ => .pure (.nil _)
  | assert =>
    refine .bind (lookup_settles T₁ h₁ _ p) fun v u T₂ _ _ _ => ?_
    cases v.truthy with
    | true => exact .pure (.nil _)
    | false => exact .raise _ _
  | push =>
    refine .bind (lookup_settles T₁ h₁ _ p) fun receiver u T₂ _ hext₂ hreceiver => ?_
    refine .bind (lookup_settles T₂ (hext₂.sub _ h₁) _ p) fun v w T₃ _ hext₃ hv => ?_
    cases receiver with
    | array ref =>
      have href : .array ref ∈ T₃.toRegion := hext₃.sub _ (Region.holds_singleton.1 hreceiver)
      refine .value_bind (t := w) rfl rfl (.refl _) ?_
      by_cases hheld : settings.held = some ref
      · simp only [hheld, if_true]
        exact ⟨_, .failure T₃ (.refl _), 0, fun _ _ _ => rfl⟩
      · simp only [hheld, if_false]
        refine .bind (.modifyStore ⟨fun _ => rfl, fun _ => .inl rfl⟩ (T₃.exists_pushItem href hv))
          fun _ x T₄ _ hext₄ _ => ?_
        exact .pure (hext₄.holds (hext₃.holds hreceiver))
    | _ => exact .raise _ _

variable {settings : Settings} {evaluate : Guard → Nat → Node → FrameRef → Eval Value} {d : Nat}

/-- An invocation is refused, or its body ends with one more call under way. -/
theorem invoke_settles
    (hbody : d < settings.maxDepth → ∀ body : Node, body.Loopless →
      EndsAt (d + 1) evaluate body) :
    CallsEndAt d fun guard k f inner p =>
      guarded (guard.admits ·.store inner) (invoke settings (evaluate guard k) f inner p) := by
  intro s T f callee values line column p hs hf hlocations hcallee hvalues
  have hframe := T.holds_ofCall hcallee hvalues f.params line column
  obtain ⟨R₁, hext₁, hinner⟩ := T.exists_addFrame hframe
  have hquiet₁ : s.store.Quiet (s.store.addFrame (.ofCall callee f.params values line column)).2 :=
    .addFrame s.store rfl
  obtain ⟨T₁, rfl⟩ := T.exists_of_quiet hext₁ hquiet₁
  refine .value_bind rfl rfl hext₁ (.guarded hinner (.get_bind ?_))
  dsimp only
  by_cases hlimit : settings.maxDepth ≤ s.depth
  · simp only [hlimit, if_true]
    exact .raise _ _
  · simp only [hlimit, if_false]
    refine .nested (.get_bind (.value_bind rfl rfl (.refl T₁.toRegion) ?_))
    obtain ⟨R₂, hext₂⟩ := T₁.exists_receiveAll hinner
      fun l hl => hext₁.holds hlocations l (List.mem_append_left _ hl)
    have hquiet₂ := Store.Quiet.receiveAll (s.store.addFrame
      (.ofCall callee f.params values line column)).2 (s.store.addFrame
      (.ofCall callee f.params values line column)).1 f.receivers
    obtain ⟨T₂, rfl⟩ := T₁.exists_of_quiet hext₂ hquiet₂
    refine .value_bind rfl rfl hext₂ ?_
    cases hcode : f.code with
    | builtin b =>
      refine builtin_settles _ ?_ settings b
      exact hext₂.sub _ hinner
    | closure outer body =>
      have houter : .frame outer ∈ T.toRegion :=
        hlocations _ (Function.mem_locations.2 (.inr ⟨outer, body, hcode, rfl⟩))
      have hfree : ¬ s.store.Has (.frame ⟨s.store.frames.size⟩) := Nat.lt_irrefl _
      have hne : outer ≠ ⟨s.store.frames.size⟩ := by
        rintro rfl
        exact hfree (T.has _ houter)
      have hext := hext₁.trans hext₂
      obtain ⟨T₃, hext₃⟩ := T₂.exists_appendOuter (hext₂.sub _ hinner) (hext.sub _ houter) hne
        (T.not_mem_outers hext (hquiet₁.trans hquiet₂) hfree)
      refine .value_bind rfl rfl hext₃ ?_
      refine hbody (by omega) body (hf outer body hcode) _ _ _ ?_ ?_
      · exact congrArg (· + 1) hs
      · exact hext₃.sub _ (hext₂.sub _ hinner)

theorem evaluateGuarded_endsAt_of_bodies (settings : Settings)
    (hbody : d < settings.maxDepth → ∀ body : Node, body.Loopless →
      EndsAt (d + 1) (fun guard => evaluateGuarded guard.admits settings) body)
    (node : Node) (hnode : node.Loopless) :
    EndsAt d (fun guard => evaluateGuarded guard.admits settings) node := by
  induction node using Node.induction with
  | step node ih =>
    intro s T e hs he
    obtain ⟨kind, p⟩ := node
    have hchildren := (Node.loopless_mk.1 hnode).2
    refine .of_succ (.guarded he (step_settles (invoke_settles hbody) T hs he hnode ?_))
    exact fun child hchild => ih child hchild (hchildren child hchild)

/-- The induction is on the calls that are still allowed. -/
theorem evaluateGuarded_endsAt (settings : Settings) {left : Nat}
    (hleft : settings.maxDepth ≤ d + left) {node : Node} (hnode : node.Loopless) :
    EndsAt d (fun guard => evaluateGuarded guard.admits settings) node := by
  induction left generalizing d node with
  | zero =>
    exact evaluateGuarded_endsAt_of_bodies settings (fun hlt => absurd hlt (by omega)) node hnode
  | succ left ih =>
    refine evaluateGuarded_endsAt_of_bodies settings (fun _ body hbody => ?_) node hnode
    exact ih (by omega) hbody

end Calls

/-- A program without loops ends, with a value or with a fault, if it gets hold of functions without
loops only and of no frame that stands around itself. The searches for names come to an end by
themselves: an evaluation that gives up where the bound on their depth matters ends alike. So do
the displays of values, however these contain one another. -/
theorem evaluate_loopless_ends (settings : Settings) {node : Node} (hnode : node.Loopless)
    (e : FrameRef) (s : State) (hhas : ∀ l, s.store.Reaches (.frame e) l → s.store.Has l)
    (hacyclic : ∀ ref, s.store.Reaches (.frame e) (.frame ref) →
      ¬ Relation.TransGen s.store.Outer ref ref)
    (hloopless : ∀ ref, s.store.Reaches (.frame e) (.function ref) →
      (s.store.function ref).Loopless) :
    (∃ outcome n, outcome ≠ .timeout ∧ ∀ k, n ≤ k →
      evaluate settings k node e s = outcome ∧
      evaluateGuarded Store.searchEnds settings k node e s = outcome) ∧
    ∀ (t : Store) (v : Value) (k : Nat), t.arrays.size + t.objects.size < k →
      t.viewWithin k [] v = t.view v := by
  refine ⟨?_, fun t v k hk => t.viewWithin_eq_view v k hk⟩
  let T := TameRegion.reach s.store e hhas hacyclic hloopless
  have he : .frame e ∈ T.toRegion := Relation.ReflTransGen.refl
  obtain ⟨outcome, hlands, n, hn⟩ :=
    evaluateGuarded_endsAt settings (Nat.le_add_left _ s.depth) hnode s T e rfl he
  refine ⟨outcome, n, ?_, fun k hk => ⟨?_, ?_⟩⟩
  · rintro rfl
    cases hlands
  · rw [evaluate_eq_evaluateGuarded]
    exact hn ⟨fun _ _ => true, fun _ _ _ => rfl⟩ k hk
  · exact hn ⟨Store.searchEnds, fun _ _ h => h⟩ k hk

def selfCaller : Node :=
  let call (callee : NodeKind) : Node :=
    ⟨.call ⟨callee, .start⟩ [⟨.arguments [], .start⟩], .start⟩
  call (.function [] (call (.identifier Frame.selfName)))

theorem evaluate_loopless_ends_selfCaller :
    selfCaller.Loopless ∧ ∃ outcome n, outcome ≠ .timeout ∧ ∀ k, n ≤ k →
      evaluate {} k selfCaller ⟨0⟩ emptyFrame = outcome := by
  have hnode : selfCaller.Loopless := by
    simp [selfCaller, Node.loopless_mk, NodeKind.isLoop, NodeKind.children, SuffixKind.children]
  have hreach : ∀ l, emptyFrame.store.Reaches (.frame ⟨0⟩) l → l = .frame ⟨0⟩ := by
    intro l hl
    induction hl with
    | refl => rfl
    | tail _ hlink ih =>
      subst ih
      cases hlink
  obtain ⟨⟨outcome, n, htimeout, hends⟩, -⟩ := evaluate_loopless_ends {} hnode ⟨0⟩ emptyFrame
    (fun l hl => by
      rw [hreach l hl]
      exact Nat.zero_lt_one)
    (fun ref href hcycle => by
      cases hreach _ href
      obtain ⟨outer, hstep, -⟩ := Relation.TransGen.head'_iff.1 hcycle
      cases hstep)
    (fun ref href => by cases hreach _ href)
  exact ⟨hnode, outcome, n, htimeout, fun k hk => (hends k hk).1⟩

end Eval
end Scriptlet
