import Scriptlet.Program
import Scriptlet.Proofs.Eval.Walk
import Scriptlet.Proofs.Store.Unplaced
/-!
# Places do not influence evaluation

A program that does not ask for the line or the column of a call behaves in the same way wherever
its constructs stand. Its evaluation is compared with the evaluation of the tree without places, on
the state without places: step by step both do the same, and differ in the places of faults and
events alone. So two programs that differ in places alone end alike
(`Eval.evaluate_ignores_places`).
-/
namespace Scriptlet

/-- Two outcomes that differ in places, with values that `rel` relates. The second has none. -/
inductive Outcome.Corresponds {α β : Type} (rel : α → β → Prop) :
    Outcome Fault α → Outcome Fault β → Prop
  | value {a : α} {b : β} {s : State} : rel a b → s.store.Regular →
      Corresponds rel (.value a s) (.value b s.unplaced)
  | failure {fault fault' : Fault} {s : State} : fault'.unplaced = fault.unplaced →
      Corresponds rel (.failure fault s) (.failure fault' s.unplaced)
  | timeout : Corresponds rel .timeout .timeout

theorem Outcome.Corresponds.unplaced_eq {α : Type} {x y z : Outcome Fault α}
    (hx : x.Corresponds Eq z) (hy : y.Corresponds Eq z) : x.unplaced = y.unplaced := by
  cases hx with
  | value ha _ =>
    subst ha
    generalize ht : State.unplaced _ = t at hy
    cases hy with
    | value hb _ =>
      subst hb
      rw [Outcome.unplaced, Outcome.unplaced, ht]
  | failure hfault =>
    generalize ht : State.unplaced _ = t at hy
    cases hy with
    | failure hfault' => rw [Outcome.unplaced, Outcome.unplaced, ht, ← hfault, hfault']
  | timeout =>
    cases hy
    rfl

namespace Eval

variable {α β γ δ : Type} {rel : α → β → Prop} {rel' : γ → δ → Prop}

/-- From a state and from that state without places, two computations end alike. -/
def Alike (rel : α → β → Prop) (m : Eval α) (m' : Eval β) : Prop :=
  ∀ s, s.store.Regular → (m s).Corresponds rel (m' s.unplaced)

section Basic

theorem Alike.pure {a : α} {b : β} (h : rel a b) : Alike rel (Pure.pure a) (Pure.pure b) :=
  fun _ hs => .value h hs

theorem Alike.raise (cause : Fault.Cause) (p p' : Position) :
    Alike rel (raise cause p) (raise cause p') :=
  fun _ _ => .failure rfl

theorem Alike.fail (fault : Fault) : Alike rel (fail fault) (fail fault) :=
  fun _ _ => .failure rfl

theorem Alike.timeout : Alike rel timeout timeout :=
  fun _ _ => .timeout

theorem Alike.bind {m : Eval α} {m' : Eval β} {f : α → Eval γ} {f' : β → Eval δ}
    (hm : Alike rel m m') (hf : ∀ a b, rel a b → Alike rel' (f a) (f' b)) :
    Alike rel' (m >>= f) (m' >>= f') := by
  intro s hs
  have hms := hm s hs
  rw [bind_apply, bind_apply]
  generalize m s = x at hms
  generalize m' s.unplaced = y at hms
  cases hms with
  | value hab ht => exact hf _ _ hab _ ht
  | failure hfault => exact .failure hfault
  | timeout => exact .timeout

theorem Alike.bind_eq {m m' : Eval α} {f : α → Eval γ} {f' : α → Eval δ} (hm : Alike Eq m m')
    (hf : ∀ a, Alike rel' (f a) (f' a)) : Alike rel' (m >>= f) (m' >>= f') := by
  refine .bind hm ?_
  rintro a _ rfl
  exact hf a

theorem Alike.store_bind {f : Store → Eval α} {f' : Store → Eval β}
    (hf : ∀ s : Store, s.Regular → Alike rel (f s) (f' s.unplaced)) :
    Alike rel (store >>= f) (store >>= f') :=
  fun s hs => hf s.store hs s hs

theorem Alike.modifyStore {change change' : Store → Store}
    (h : ∀ s : Store, s.Regular →
      (change s).Regular ∧ change' s.unplaced = (change s).unplaced) :
    Alike Eq (modifyStore change) (modifyStore change') := by
  intro s hs
  obtain ⟨hregular, heq⟩ := h s.store hs
  have hstate : Eval.modifyStore change' s.unplaced =
      .value () ({ s with store := change s.store } : State).unplaced := by
    simp only [Eval.modifyStore, State.unplaced, heq]
  rw [hstate]
  exact .value (s := { s with store := change s.store }) rfl hregular

theorem Alike.add {change change' : Store → α × Store}
    (h : ∀ s : Store, s.Regular → (change s).2.Regular ∧
      change' s.unplaced = ((change s).1, (change s).2.unplaced)) :
    Alike Eq (add change) (add change') := by
  intro s hs
  obtain ⟨hregular, heq⟩ := h s.store hs
  have hstate : Eval.add change' s.unplaced =
      .value (change s.store).1 ({ s with store := (change s.store).2 } : State).unplaced := by
    simp only [Eval.add, State.unplaced, heq]
  rw [hstate]
  exact .value (s := { s with store := (change s.store).2 }) rfl hregular

theorem Alike.emit (e : Event) : Alike Eq (emit e) (emit e.unplaced) := by
  intro s hs
  have hstate : Eval.emit e.unplaced s.unplaced = .value () (s.emit e).unplaced := by
    simp [Eval.emit, modify, State.emit, State.unplaced]
  rw [hstate]
  exact .value (s := s.emit e) rfl hs

theorem Alike.nested {m m' : Eval α} (h : Alike Eq m m') : Alike Eq (nested m) (nested m') := by
  intro s hs
  have hms := h { s with depth := s.depth + 1 } hs
  have hstate : ({ s with depth := s.depth + 1 } : State).unplaced =
      { s.unplaced with depth := s.unplaced.depth + 1 } := rfl
  rw [hstate] at hms
  rw [Eval.nested, Eval.nested]
  generalize m { s with depth := s.depth + 1 } = x at hms
  generalize m' { s.unplaced with depth := s.unplaced.depth + 1 } = y at hms
  cases hms with
  | @value a b t hab ht => exact .value (s := { t with depth := t.depth - 1 }) hab ht
  | @failure fault fault' t hfault =>
    exact .failure (s := { t with depth := t.depth - 1 }) hfault
  | timeout => exact .timeout

theorem Alike.lift {x : Position → Except Fault α} (hx : Placed x) (p p' : Position) :
    Alike Eq (lift (x p)) (lift (x p')) := by
  rcases hx with ⟨a, ha⟩ | ⟨cause, hcause⟩
  · rw [ha, ha]
    exact .pure rfl
  · rw [hcause, hcause]
    exact .raise cause p p'

theorem Alike.get_bind {f : State → Eval α} {f' : State → Eval β}
    (hf : ∀ s : State, Alike rel (f s) (f' s.unplaced)) : Alike rel (get >>= f) (get >>= f') :=
  fun s hs => hf s s hs

end Basic

/-! ## Variables and properties -/

section Variables

variable {name : String}

theorem lookup_alike (h : Frame.holdsPlace name = false) (frame : FrameRef) (p p' : Position) :
    Alike Eq (lookup frame name p) (lookup frame name p') := by
  refine .store_bind fun s _ => ?_
  rw [Store.get?_unplaced h]
  cases s.get? frame name with
  | some v => exact .pure rfl
  | none => exact .raise _ _ _

theorem assign_alike (h : Frame.holdsPlace name = false) (frame : FrameRef) (v : Value)
    (p p' : Position) : Alike Eq (assign frame name v p) (assign frame name v p') := by
  refine .store_bind fun s _ => ?_
  rw [Store.target_unplaced]
  cases s.target frame name with
  | ok owner =>
    exact .modifyStore fun s hs => ⟨hs.write h v owner, (Store.unplaced_write h v owner).symm⟩
  | error refusal => cases refusal <;> exact .raise _ _ _

theorem assignOrDeclare_alike (h : Frame.holdsPlace name = false) (frame : FrameRef)
    (mutable : Bool) (v : Value) (p : Position) :
    Alike Eq (assignOrDeclare frame mutable name v p)
      (assignOrDeclare frame mutable name v .nowhere) := by
  refine .store_bind fun s _ => ?_
  rw [Store.has, Store.has, Store.get?_unplaced h]
  cases (s.get? frame name).isSome with
  | true => exact .bind_eq (assign_alike h frame v p .nowhere) fun _ => .pure rfl
  | false =>
    refine .bind_eq (.emit (.declared name mutable p)) fun _ => .bind_eq ?_ fun _ => .pure rfl
    exact .modifyStore fun s hs => ⟨hs.bind h frame _, (Store.unplaced_bind h frame _).symm⟩

theorem addFunction_alike {f : Function} (hf : f.Indifferent) :
    Alike Eq (add (·.addFunction f)) (add (·.addFunction f.unplaced)) :=
  .add fun s hs => ⟨hs.addFunction hf, Store.addFunction_unplaced s f⟩

theorem ofNat_site_alike {n : Nat} (h : Arithmetic.Fits n) (p p' : Position) :
    Alike (fun a b => 0 ≤ a.toInt ∧ b = 0) (lift (Arithmetic.ofNat n p))
      (lift (Arithmetic.ofNat 0 p')) := by
  have hfit : Arithmetic.fit? n = some (Int64.ofInt n) := if_pos h
  have hzero : Arithmetic.fit? (0 : Nat) = some 0 := if_pos (by decide)
  rw [Arithmetic.ofNat, Arithmetic.ofNat, Arithmetic.ofInt, Arithmetic.ofInt, hfit, hzero]
  refine .pure ⟨?_, rfl⟩
  rw [Arithmetic.fit?_eq_some_iff.1 hfit]
  exact Int.natCast_nonneg n

/-- Comparisons look at no frame and at no function. -/
theorem compare_alike (s : Store) (op : ComparisonOperator) (a b : Value) (p p' : Position) :
    Alike Eq (lift (s.compare op a b p)) (lift (s.unplaced.compare op a b p')) := by
  have hequal : s.unplaced.equal a b = s.equal a b :=
    Store.equal_congr (s := s) (t := s.unplaced) rfl rfl a b
  have hcompare : s.unplaced.compare op a b = s.compare op a b := by
    funext p
    cases op <;> simp only [Store.compare, hequal]
  rw [hcompare]
  exact .lift (s.compare_placed op a b) p p'

theorem addMethod_alike (ref : FunctionRef) (v : Value) :
    Alike Eq (do
      let f := (← store).function ref
      return Value.function (← add (·.addFunction { f with receivers := v :: f.receivers }))) (do
      let f := (← store).function ref
      return Value.function (← add (·.addFunction { f with receivers := v :: f.receivers }))) := by
  refine .store_bind fun s hs => ?_
  rw [Store.function_unplaced]
  exact .bind_eq (addFunction_alike (hs.bodies ref)) fun _ => .pure rfl

end Variables

/-! ## Calls -/

section Calls

/-- The line and the column of a call read as natural numbers, whatever they are. -/
theorem coordinate_alike {name : String} (h : Frame.holdsPlace name = true) (frame : FrameRef) :
    Alike (fun _ _ => True) (coordinate frame name) (coordinate frame name) := by
  have hlookup : Alike Value.LikePlace (lookup frame name .nowhere)
      (lookup frame name .nowhere) := by
    refine .store_bind fun s hs => ?_
    have hrel := hs.get?_rel h frame
    generalize s.get? frame name = v at hrel
    generalize s.unplaced.get? frame name = v' at hrel
    cases hrel with
    | some hlike => exact .pure hlike
    | none => exact .raise _ _ _
  refine .bind hlookup fun v v' hlike => ?_
  rcases hlike with rfl | ⟨n, hn, rfl, rfl⟩
  · refine .bind_eq (.lift v'.toInteger_placed .nowhere .nowhere) fun n => ?_
    cases Arithmetic.toNat? n with
    | some k => exact .pure trivial
    | none => exact .fail _
  · have hcast : Alike (fun a b => a = n ∧ b = 0)
        ((Value.integer n).toInteger .nowhere) ((Value.integer 0).toInteger .nowhere) :=
      .pure ⟨rfl, rfl⟩
    refine .bind hcast ?_
    rintro a b ⟨rfl, rfl⟩
    have hcoordinate : Arithmetic.toNat? a = some a.toInt.toNat := if_pos hn
    rw [hcoordinate]
    exact .pure trivial

theorem callSite_alike (frame : FrameRef) :
    Alike (fun _ _ => True) (callSite frame) (callSite frame) := by
  refine .bind (coordinate_alike (by decide) frame) fun _ _ _ => ?_
  exact .bind (coordinate_alike (by decide) frame) fun _ _ _ => .pure trivial

theorem writeLine_alike (sink : Sink) (text : String) :
    Alike Eq (writeLine sink text) (writeLine sink text) := by
  cases sink with
  | ready => exact fun s hs => .value (s := { s with output := s.output ++ text ++ "\n" }) rfl hs
  | closed reason => exact .fail _
  | busy => exact .fail _

theorem builtin_run_alike (settings : Settings) (frame : FrameRef) (b : Builtin) :
    Alike Eq (b.run settings frame) (b.run settings frame) := by
  refine .bind (callSite_alike frame) fun p p' _ => ?_
  cases b with
  | puts =>
    refine .bind_eq (lookup_alike (by decide) frame p p') fun v => .store_bind fun s _ => ?_
    rw [Store.display_unplaced]
    exact .bind_eq (writeLine_alike _ _) fun _ => .pure rfl
  | assert =>
    refine .bind_eq (lookup_alike (by decide) frame p p') fun v => ?_
    cases v.truthy with
    | true => exact .pure rfl
    | false => exact .raise _ p p'
  | push =>
    refine .bind_eq (lookup_alike (by decide) frame p p') fun receiver => ?_
    refine .bind_eq (lookup_alike (by decide) frame p p') fun v => ?_
    refine .bind_eq (.lift receiver.toArray_placed p p') fun ref => ?_
    have hwrite : Alike Eq (modifyStore (·.pushItem ref v)) (modifyStore (·.pushItem ref v)) :=
      .modifyStore fun s hs => ⟨hs.congr rfl rfl, rfl⟩
    by_cases hheld : settings.held = some ref
    · simp only [hheld, if_true]
      exact .bind_eq (.fail _) fun _ => .bind_eq hwrite fun _ => .pure rfl
    · simp only [hheld, if_false]
      exact .bind_eq hwrite fun _ => .pure rfl

variable {settings : Settings} {evaluate evaluate' : Node → FrameRef → Eval Value}

theorem invoke_alike
    (hev : ∀ node frame, node.Indifferent →
      Alike Eq (evaluate node frame) (evaluate' node.unplaced frame))
    {f : Function} (hf : f.Indifferent) (frame : FrameRef) (p : Position) :
    Alike Eq (invoke settings evaluate f frame p)
      (invoke settings evaluate' f.unplaced frame .nowhere) := by
  refine .get_bind fun s => ?_
  change Alike Eq (if settings.maxDepth ≤ s.depth then _ else _)
    (if settings.maxDepth ≤ s.depth then _ else _)
  split
  · exact .raise _ _ _
  · refine .nested (.get_bind fun s => .bind_eq (.emit (.invoked _ _ p)) fun _ => ?_)
    refine .bind_eq (.modifyStore fun s hs => ?_) fun _ => ?_
    · exact ⟨hs.receiveAll frame f.receivers,
        (Store.unplaced_receiveAll frame f.receivers).symm⟩
    · change Alike Eq (runCode settings evaluate f.code frame)
        (runCode settings evaluate' f.code.unplaced frame)
      cases hcode : f.code with
      | closure outer body =>
        refine .bind_eq (.modifyStore fun s hs => ?_) fun _ => hev body frame (hf outer body hcode)
        exact ⟨hs.appendOuter frame outer, (Store.unplaced_appendOuter frame outer).symm⟩
      | builtin b => exact builtin_run_alike settings frame b

end Calls

/-! ## One step -/

def paired (e : FrameRef) : Logic where
  Index := Bool
  Evaluates _ node := node.Indifferent
  frame := e
  place := both id fun _ => .nowhere
  rename _ := id
  Valid _ m := Alike Eq (m false) (m true)
  evaluates_child {_ node child} h hchild := by
    obtain ⟨kind, p⟩ := node
    exact (Node.indifferent_mk.1 h).2 child hchild
  pure _ := .pure rfl
  bind hm hf := .bind_eq hm fun a => by
    simpa only [Result.rename_id] using hf () a trivial fun _ _ => trivial
  raise cause _ := .raise cause _ _
  lookup h := lookup_alike (Node.indifferent_mk.1 h).1.2 e _ _
  property _ _ := .store_bind fun _ _ => .pure rfl
  array _ := .store_bind fun _ _ => .pure rfl
  compare op _ _ _ := .store_bind fun s _ => compare_alike s op _ _ _ _
  display _ := .store_bind fun s _ => .pure (s.display_unplaced _).symm
  assign h _ := assignOrDeclare_alike (Node.indifferent_mk.1 h).1.2 e _ _ _
  setProperty _ _ _ := .modifyStore fun _ hs => ⟨hs.congr rfl rfl, rfl⟩
  addArray _ := .bind_eq (.add fun _ hs => ⟨hs.congr rfl rfl, rfl⟩) fun _ => .pure rfl
  addObject _ := .bind_eq (.add fun _ hs => ⟨hs.congr rfl rfl, rfl⟩) fun _ => .pure rfl
  addClosure {_ params body _} h := by
    have hbody : ({ params, code := .closure e body } : Function).Indifferent := by
      rintro frame body ⟨⟩
      exact (Node.indifferent_mk.1 h).2 body (List.mem_singleton_self body)
    change Alike Eq (do
      let code := .closure e (body.relocate id)
      return Value.function (← add (·.addFunction { params, code }))) _
    rw [Node.relocate_id]
    exact .bind_eq (addFunction_alike hbody) fun _ => .pure rfl
  addPush {_ ref} _ := by
    have hpush : Builtin.push.function.Indifferent := by
      rintro frame body ⟨⟩
    exact .bind_eq (addFunction_alike hpush) fun push => addMethod_alike push (.array ref)
  addMethod _ _ := addMethod_alike _ _

section Step

variable {call call' : Function → FrameRef → Position → Eval Value}
  {evaluate evaluate' : Node → FrameRef → Eval Value} {e : FrameRef}
  (hcall : ∀ f frame p, f.Indifferent → Alike Eq (call f frame p) (call' f.unplaced frame .nowhere))

/-- Functions without places are called from nowhere. -/
def pairedCalls : Calls (paired e) (both call call') where
  Callable _ _ params g := ∃ f, f.Indifferent ∧ params = f.params ∧ g = both f f.unplaced
  later _ h := h
  params_eq := by
    rintro _ _ _ _ ⟨f, -, rfl, rfl⟩ (_ | _) <;> rfl
  read {_ ref _} _ hk := Alike.store_bind fun s hs => by
    rw [Store.function_unplaced]
    exact hk _ _ ⟨s.function ref, hs.bodies ref, rfl, rfl⟩
  enter := by
    rintro _ ref _ _ callee suffixes site values hsite - ⟨f, hf, rfl, rfl⟩ - -
    have hfits : site.Fits := (Node.indifferent_mk.1 hsite).1.1
    refine Alike.bind (ofNat_site_alike hfits.1 site .nowhere) ?_
    rintro line _ ⟨hline, rfl⟩
    refine Alike.bind (ofNat_site_alike hfits.2 site .nowhere) ?_
    rintro column _ ⟨hcolumn, rfl⟩
    refine Alike.bind_eq (.add fun t ht => ⟨ht.addFrame _ _ _ hline hcolumn, ?_⟩)
      fun inner => hcall f inner site hf
    rw [← Store.addFrame_unplaced, Frame.unplaced_ofCall]
    rfl

include hcall

theorem step_alike (hev : ∀ node frame, node.Indifferent →
      Alike Eq (evaluate node frame) (evaluate' node.unplaced frame))
    (rounds : Nat) {node : Node} (h : node.Indifferent) :
    Alike Eq (step call evaluate rounds node e) (step call' evaluate' rounds node.unplaced e) := by
  have hstep : (paired e).Valid () fun i => step (both call call' i) (both evaluate evaluate' i)
      rounds (node.relocate (both id (fun _ => .nowhere) i)) e := by
    refine step_valid (pairedCalls hcall).applies (loops_of_timeout (fun _ => Alike.timeout) rounds)
      h fun _ _ child hchild => ?_
    change Alike Eq (evaluate (child.relocate id) e) (evaluate' child.unplaced e)
    rw [Node.relocate_id]
    exact hev child e ((paired e).evaluates_child (w := ()) h hchild)
  change Alike Eq (step call evaluate rounds (node.relocate id) e) _ at hstep
  rwa [Node.relocate_id] at hstep

end Step

/-- An evaluation does the same as that of the tree without places. -/
theorem evaluate_alike (settings : Settings) (n : Nat) {node : Node} (h : node.Indifferent)
    (e : FrameRef) :
    Alike Eq (evaluate settings n node e) (evaluate settings n node.unplaced e) := by
  induction n generalizing node e with
  | zero => exact .timeout
  | succ n ih =>
    have hev : ∀ node e, node.Indifferent →
        Alike Eq (evaluate settings n node e) (evaluate settings n node.unplaced e) :=
      fun node e h => ih h e
    exact step_alike (fun f frame p hf => invoke_alike hev hf frame p) hev n h

theorem start_regular : Program.start.2.store.Regular := by
  have hempty : (({} : Store).addFrame {}).2.Regular := {
    coordinates := fun ref name b _ hb => by
      rw [Store.frame_addFrame] at hb
      split at hb <;> cases hb
    bodies := fun ref frame body hcode => by
      cases hcode
      exact Node.indifferent_mk.2 ⟨⟨⟨by decide, by decide⟩, rfl⟩, by simp [NodeKind.children]⟩ }
  have hprovide : ∀ {s : Store} {name : String} (b : Builtin) (frame : FrameRef),
      Frame.holdsPlace name = false → s.Regular → (s.provide frame name b).Regular :=
    fun b frame hname hs => (hs.addFunction fun _ _ hcode => by cases hcode).bind hname frame _
  exact hprovide .assert _ (by decide) (hprovide .puts _ (by decide) hempty)

/-- Two programs that differ in places alone, and that do not ask for places, do the same: with any
number of steps both end or neither does, with the same value or the same cause of a fault, and in
states that differ in places alone. -/
theorem evaluate_ignores_places (settings : Settings) {a b : Node} (ha : a.Indifferent)
    (hb : b.Indifferent) (hab : a.unplaced = b.unplaced) :
    ((∃ n, evaluate settings n a Program.start.1 Program.start.2 ≠ .timeout) ↔
      ∃ n, evaluate settings n b Program.start.1 Program.start.2 ≠ .timeout) ∧
    ∀ n, (evaluate settings n a Program.start.1 Program.start.2).unplaced =
      (evaluate settings n b Program.start.1 Program.start.2).unplaced := by
  have hends : ∀ n, (evaluate settings n a Program.start.1 Program.start.2).unplaced =
      (evaluate settings n b Program.start.1 Program.start.2).unplaced := by
    intro n
    have halike := evaluate_alike settings n ha Program.start.1 _ start_regular
    have halike' := evaluate_alike settings n hb Program.start.1 _ start_regular
    rw [← hab] at halike'
    exact halike.unplaced_eq halike'
  have htimeout : ∀ {x y : Outcome Fault Value}, x.unplaced = y.unplaced →
      (x ≠ .timeout ↔ y ≠ .timeout) := by
    intro x y h
    cases x <;> cases y <;> simp_all [Outcome.unplaced]
  exact ⟨exists_congr fun n => htimeout (hends n), hends⟩

/-- A function that gives back its argument, called on the line `line`. -/
private def callOnLine (line : Nat) : Node :=
  ⟨.call ⟨.function [⟨"v", false⟩] ⟨.identifier "v", ⟨line, 8⟩⟩, ⟨line, 1⟩⟩
    [⟨.arguments [⟨.number "7", ⟨line, 12⟩⟩], ⟨line, 11⟩⟩], ⟨line, 1⟩⟩

private theorem callOnLine_indifferent {line : Nat} (h : Arithmetic.Fits line) :
    (callOnLine line).Indifferent := by
  have hfits : ∀ column : Nat, Arithmetic.Fits column → Position.Fits ⟨line, column⟩ :=
    fun column hcolumn => ⟨h, hcolumn⟩
  simp only [callOnLine, Node.indifferent_mk, NodeKind.children, SuffixKind.children,
    List.flatMap_cons, List.flatMap_nil, List.append_nil, List.forall_mem_cons, List.not_mem_nil,
    false_imp_iff, implies_true, and_true]
  exact ⟨⟨hfits 1 (by decide), rfl⟩, ⟨⟨hfits 1 (by decide), rfl⟩, hfits 8 (by decide), rfl⟩,
    hfits 12 (by decide), rfl⟩

theorem evaluate_callOnLine_ignores_places :
    (callOnLine 1).Indifferent ∧ (callOnLine 3).Indifferent ∧ callOnLine 1 ≠ callOnLine 3 ∧
    ∀ n, (evaluate {} n (callOnLine 1) Program.start.1 Program.start.2).unplaced =
      (evaluate {} n (callOnLine 3) Program.start.1 Program.start.2).unplaced := by
  have hfirst : (callOnLine 1).Indifferent := callOnLine_indifferent (by decide)
  have hthird : (callOnLine 3).Indifferent := callOnLine_indifferent (by decide)
  exact ⟨hfirst, hthird, by simp [callOnLine],
    (evaluate_ignores_places {} hfirst hthird rfl).2⟩

end Eval
end Scriptlet
