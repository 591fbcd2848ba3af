import Scriptlet.Program
import Scriptlet.Proofs.Eval.Course
import Scriptlet.Proofs.Eval.Reach
import Scriptlet.Proofs.Store.Graft
import Scriptlet.Proofs.Store.Tame
/-!
# Names that are not mentioned

A name matters to an evaluation only if an identifier or an assignment of its tree has it, or one in
the body of a function that it can get hold of, or if it is one of the few that provided functions
look up. Main statement: a variable of any other name can be added anywhere, and nothing comes out
differently; so a program that uses none of the names which every program starts with runs as well
without them (`Eval.evaluate_ignores_unmentioned`).
-/
namespace Scriptlet

/-! ## Trees and functions without some names -/

/-- The name that a construct looks up or assigns to. -/
def NodeKind.name? : NodeKind → Option String
  | .identifier name => some name
  | .assignment _ name _ => some name
  | _ => none

/-- No identifier and no assignment of a tree has one of the names. -/
def Node.Omits (names : List String) (tree : Node) : Prop :=
  ∀ node : Node, node.Within tree → ∀ name ∈ node.kind.name?, name ∉ names

theorem Node.omits_mk {names : List String} {kind : NodeKind} {p : Position} :
    (⟨kind, p⟩ : Node).Omits names ↔
      (∀ name ∈ kind.name?, name ∉ names) ∧ ∀ child ∈ kind.children, child.Omits names :=
  Node.forall_within

def Function.Omits (names : List String) (f : Function) : Prop :=
  ∀ frame body, f.code = .closure frame body → body.Omits names

theorem Function.default_omits (names : List String) : (default : Function).Omits names := by
  rintro frame body ⟨⟩
  exact Node.omits_mk.2 ⟨by simp [NodeKind.name?], by simp [NodeKind.children]⟩

theorem Builtin.function_omits (names : List String) (b : Builtin) : b.function.Omits names := by
  rintro frame body ⟨⟩

/-! ## Regions without some names -/

theorem Region.exists_called {policy : Policy} {s : State} (R : Region policy s.store)
    {callee : Value} {f : Function} {values : List Value} (hcallee : R.Holds callee.locations)
    (hf : R.Holds f.locations) (hvalues : R.Holds (values.flatMap Value.locations))
    (line column : Int64) (p : Position) :
    ∃ R' : Region policy (s.called callee f values line column p).store,
      R.Extends R' ∧ .frame ⟨s.store.frames.size⟩ ∈ R' := by
  obtain ⟨R₁, hext₁, hframe⟩ :=
    R.exists_addFrame (R.holds_ofCall hcallee hvalues f.params line column)
  have hreceivers : R₁.Holds (f.receivers.flatMap Value.locations) :=
    fun l hl => hext₁.holds hf l (List.mem_append_left _ hl)
  obtain ⟨R₂, hext₂⟩ := R₁.exists_receiveAll hframe hreceivers
  have hext := hext₁.trans hext₂
  have hframe := hext₂.sub _ hframe
  rw [State.called, State.entered]
  cases hcode : f.code with
  | closure outer body =>
    have houter := hf _ (Function.mem_locations.2 (.inr ⟨outer, body, hcode, rfl⟩))
    obtain ⟨R₃, hext₃⟩ := R₂.exists_appendOuter hframe (hext.sub _ houter)
    exact ⟨R₃, hext.trans hext₃, hext₃.sub _ hframe⟩
  | builtin b => exact ⟨R₂, hext, hframe⟩

structure OmittingRegion (names : List String) (s : Store) extends Region .all s where
  omits : ∀ ref, .function ref ∈ carrier → (s.function ref).Omits names

/-- From `s` to `t`, functions get none of the names. -/
def Store.StillOmits (names : List String) (s t : Store) : Prop :=
  ∀ ref, t.function ref = s.function ref ∨ (t.function ref).Omits names

theorem Store.StillOmits.of_eq {names : List String} {s t : Store}
    (h : t.functions = s.functions) : s.StillOmits names t := by
  intro ref
  left
  rw [function, function, h]

theorem Store.StillOmits.addFunction {names : List String} (s : Store) {f : Function}
    (hf : f.Omits names) : s.StillOmits names (s.addFunction f).2 := by
  intro ref
  rw [function_addFunction]
  split
  · exact .inr hf
  · exact .inl rfl

/-- A region that extends one without some names, if functions get none of them. -/
def OmittingRegion.extend {names : List String} {s t : Store} (T : OmittingRegion names s)
    (R : Region .all t) (hext : T.Extends R) (h : s.StillOmits names t) :
    OmittingRegion names t :=
  { R with
    omits := by
      intro ref href
      rcases h ref with heq | homits
      · rw [heq]
        -- A place that was free stood for the function that does nothing.
        rcases hext.new _ href with hold | hnew
        · exact T.omits ref hold
        · rw [Store.function_of_not_has hnew.1]
          exact Function.default_omits names
      · exact homits }

/-! ## States with a graft -/

def State.withdraw (frame : FrameRef) (names : List String) (s : State) : State :=
  { s with store := s.store.withdraw frame names }

def State.graft (functions : Array Function) (s : State) : State :=
  { s with store := s.store.graft functions }

def Outcome.withdraw (frame : FrameRef) (names : List String) :
    Outcome Fault Value → Outcome Fault Value
  | .value v s => .value v (s.withdraw frame names)
  | .failure fault s => .failure fault (s.withdraw frame names)
  | .timeout => .timeout

def Outcome.graft (functions : Array Function) : Outcome Fault Value → Outcome Fault Value
  | .value v s => .value (v.rename (Store.shift functions.size)) (s.graft functions)
  | .failure fault s => .failure fault (s.graft functions)
  | .timeout => .timeout

theorem Outcome.graft_empty (x : Outcome Fault Value) : x.graft #[] = x := by
  have hvalue : ∀ v : Value, v.rename (Store.shift 0) = v := by
    intro v
    rw [Store.shift_zero, v.rename_id]
  cases x with
  | timeout => rfl
  | _ => simp [graft, State.graft, Store.graft_empty, hvalue]

/-- The second state is the first one with a graft in its store. -/
structure State.Grafted (g : Graft) (s s' : State) : Prop where
  store : Store.Grafted g s.store s'.store
  depth : s'.depth = s.depth
  output : s'.output = s.output
  events : s'.events = s.events

namespace State.Grafted

variable {g : Graft} {s s' : State} (h : Grafted g s s')

include h

theorem eq : s'.withdraw g.frame g.names = s.graft g.functions := by
  obtain ⟨hstore, hdepth, houtput, hevents⟩ := h
  rw [withdraw, graft, hstore.eq, hdepth, houtput, hevents]

theorem setStore {t t' : Store} (ht : Store.Grafted g t t') :
    Grafted g { s with store := t } { s' with store := t' } :=
  ⟨ht, h.depth, h.output, h.events⟩

theorem emit (e : Event) : Grafted g (s.emit e) (s'.emit e) :=
  ⟨h.store, h.depth, h.output, congrArg (·.push e) h.events⟩

theorem left : Grafted g s.left s'.left :=
  ⟨h.store, congrArg (· - 1) h.depth, h.output, h.events⟩

theorem called (hthis : Frame.thisName ∉ g.names) (callee : Value) (f : Function)
    (values : List Value) (line column : Int64) (p : Position) :
    Grafted g (s.called callee f values line column p)
      (s'.called (callee.rename g.rename) (f.rename g.rename) (values.map (·.rename g.rename))
        line column p) := by
  obtain ⟨href, hframe⟩ := h.store.addFrame (.ofCall callee f.params values line column)
  rw [Frame.rename_ofCall] at href hframe
  have hreceive := hframe.receiveAll hthis ⟨s.store.frames.size⟩ f.receivers
  have hsize : s'.store.frames.size = s.store.frames.size := h.store.size_frames
  refine ⟨?_, congrArg (· + 1) h.depth, h.output, ?_⟩
  · rw [State.called, State.entered, State.called, State.entered, hsize, Function.code_rename]
    cases f.code with
    | closure outer body => exact hreceive.appendOuter ⟨s.store.frames.size⟩ outer
    | builtin b => exact hreceive
  · simp only [State.called, State.entered, h.events, h.depth, Function.params_rename]

end State.Grafted

/-! ## An evaluation with and without a graft -/

/-- A state of the evaluation without the graft, with the places that it can get hold of. -/
structure Ungrafted (names : List String) where
  state : State
  region : OmittingRegion names state.store

namespace Ungrafted

variable {α β : Type}

/-- An evaluation and the same one with a graft in its store. -/
def comparison (g : Graft) : Comparison where
  World := Ungrafted g.names
  state := Ungrafted.state
  Mate w s := w.state.Grafted g s
  Later w w' := w.region.Extends w'.region.toRegion
  Knows w l := l ∈ w.region.toRegion
  Reads name := name ∉ g.names
  Evaluates _ node := node.Omits g.names
  Calls w _ f := f.Omits g.names ∧ w.region.Holds f.locations
  rename := g.rename

variable {g : Graft} {w : Ungrafted g.names} {rel : Ungrafted g.names → α → β → Prop}

/-- Both computations end with a value. What belongs together is told by the new region alone. -/
theorem matches_of_value {m : Eval α} {m' : Eval β} {a : α} {t : State} {R : Region .all t.store}
    (hm : m w.state = .value a t) (hext : w.region.Extends R)
    (hfunctions : w.state.store.StillOmits g.names t.store)
    (hm' : ∀ s, w.state.Grafted g s → ∃ b t', m' s = .value b t' ∧ t.Grafted g t' ∧
      ∀ w' : Ungrafted g.names, (∀ l ∈ R, l ∈ w'.region.toRegion) → rel w' a b) :
    (comparison g).Matches w rel m m' := by
  intro s hs
  obtain ⟨b, t', hm', ht, hrel⟩ := hm' s hs
  let w' : Ungrafted g.names := ⟨t, w.region.extend R hext hfunctions⟩
  have hlater : (comparison g).Later w w' := hext
  have hend : (comparison g).Ends w rel (.value a t) (.value b t') :=
    .value hlater ht (hrel w' fun _ hl => hl)
  rwa [← hm, ← hm'] at hend

theorem matches_of_failure {m : Eval α} {m' : Eval β} {fault : Fault}
    (hm : m w.state = .failure fault w.state)
    (hm' : ∀ s, w.state.Grafted g s → m' s = .failure fault s) :
    (comparison g).Matches w rel m m' := by
  intro s hs
  have hlater : (comparison g).Later w w := .refl w.region.toRegion
  have hend : (comparison g).Ends w rel (.failure fault w.state) (.failure fault s) :=
    .failure fault hlater hs
  rwa [← hm, ← hm' s hs] at hend

theorem matches_modifyStore {change change' : Store → Store}
    (hfunctions : (change w.state.store).functions = w.state.store.functions)
    (hregion : ∃ R : Region .all (change w.state.store), w.region.Extends R)
    (hgrafted : ∀ s', Store.Grafted g w.state.store s' →
      Store.Grafted g (change w.state.store) (change' s')) :
    (comparison g).Matches w (fun _ _ _ => True) (Eval.modifyStore change)
      (Eval.modifyStore change') := by
  obtain ⟨R, hext⟩ := hregion
  refine matches_of_value (R := R) rfl hext (.of_eq hfunctions) fun s hs => ?_
  exact ⟨_, _, rfl, hs.setStore (hgrafted _ hs.store), fun _ _ => trivial⟩

theorem matches_add {change : Store → α × Store} {change' : Store → β × Store} {l : Location}
    (hfunctions : w.state.store.StillOmits g.names (change w.state.store).2)
    (hregion : ∃ R : Region .all (change w.state.store).2, w.region.Extends R ∧ l ∈ R)
    (hgrafted : ∀ s', Store.Grafted g w.state.store s' →
      Store.Grafted g (change w.state.store).2 (change' s').2 ∧
      ∀ w', (comparison g).Knows w' l → rel w' (change w.state.store).1 (change' s').1) :
    (comparison g).Matches w rel (Eval.add change) (Eval.add change') := by
  obtain ⟨R, hext, hl⟩ := hregion
  refine matches_of_value (R := R) rfl hext hfunctions fun s hs => ?_
  obtain ⟨hstore, hrel⟩ := hgrafted s.store hs.store
  exact ⟨_, _, rfl, hs.setStore hstore, fun w' hsub => hrel w' (hsub l hl)⟩

theorem addFunction_matches {f f' : Function} (hf : w.region.Holds f.locations)
    (homits : f.Omits g.names) (hrename : f' = f.rename g.rename) :
    (comparison g).Matches w (comparison g).FunctionPair (Eval.add (·.addFunction f))
      (Eval.add (·.addFunction f')) := by
  subst hrename
  refine matches_add (.addFunction _ homits) (w.region.exists_addFunction hf trivial) ?_
  intro s' hs'
  obtain ⟨href, hstore⟩ := hs'.addFunction f
  exact ⟨hstore, fun w' hknows => ⟨href, hknows⟩⟩

/-- Whether an assignment writes or declares, and where it writes, is the same on both sides. -/
theorem assignOrDeclare_matches_grafted {e : FrameRef} {mutable : Bool} {name : String}
    {p : Position} {v : Value} (he : .frame e ∈ w.region.toRegion) (hname : name ∉ g.names)
    (hv : w.region.Holds v.locations) :
    (comparison g).Matches w (comparison g).Pair (Eval.assignOrDeclare e mutable name v p)
      (Eval.assignOrDeclare e mutable name (v.rename g.rename) p) := by
  have hopen := Eval.assignOrDeclare_eq e mutable name v p w.state
  have hopen' := fun s => Eval.assignOrDeclare_eq e mutable name (v.rename g.rename) p s
  have hpair : ∀ {t : Store} {R : Region .all t}, w.region.Extends R →
      ∀ w' : Ungrafted g.names, (∀ l ∈ R, l ∈ w'.region.toRegion) →
        (comparison g).Pair w' v (v.rename g.rename) :=
    fun hext w' hsub => ⟨rfl, fun l hl => hsub l (hext.holds hv l hl)⟩
  cases hscope : w.state.store.has e name with
  | false =>
    rw [hscope, if_neg Bool.false_ne_true] at hopen
    obtain ⟨R, hext⟩ := w.region.exists_bind name ⟨v, mutable⟩ he hv
    refine matches_of_value (R := R) hopen hext (.of_eq rfl) fun s hs => ?_
    have hs' := hopen' s
    rw [hs.store.has_eq hname, hscope, if_neg Bool.false_ne_true] at hs'
    have hbind := hs.store.bind hname e ⟨v, mutable⟩
    exact ⟨_, _, hs', (hs.emit _).setStore hbind, hpair hext⟩
  | true =>
    rw [hscope, if_pos rfl] at hopen
    cases htarget : w.state.store.target e name with
    | ok owner =>
      rw [htarget] at hopen
      obtain ⟨R, hext⟩ := w.region.exists_write (w.region.mem_target he htarget) hv
      have hfunctions := w.state.store.functions_write name v owner
      refine matches_of_value (R := R) hopen hext (.of_eq hfunctions) fun s hs => ?_
      have hs' := hopen' s
      rw [hs.store.has_eq hname, hscope, if_pos rfl, hs.store.target_eq hname, htarget] at hs'
      exact ⟨_, _, hs', hs.setStore (hs.store.write hname v owner), hpair hext⟩
    | error reason =>
      rw [htarget] at hopen
      cases reason <;>
        refine matches_of_failure hopen fun s hs => ?_ <;>
        rw [hopen', hs.store.has_eq hname, hscope, if_pos rfl, hs.store.target_eq hname, htarget]

def simulation (hreads : ∀ b : Builtin, ∀ name ∈ b.reads, name ∉ g.names) : Simulation where
  toComparison := comparison g
  later_refl w := .refl w.region.toRegion
  later_trans h h' := Region.Extends.trans h h'
  knows_later h hl := h.sub _ hl
  evaluates_later _ hnode := hnode
  calls_later := by
    rintro w w' callee f hext ⟨homits, hf⟩
    exact ⟨homits, hext.holds hf⟩
  evaluates_child hnode hchild := fun node hwithin => hnode node (.child hchild hwithin)
  reads_identifier hnode := hnode _ .self _ rfl
  reads_builtin := hreads
  counts hs := ⟨hs.depth, hs.store.size_frames⟩
  lookup := by
    intro w s e name hs he hname
    exact ⟨hs.store.get?_eq hname e, fun v hv => w.region.holds_get? he hv⟩
  property := by
    intro w s ref name hs href
    exact ⟨hs.store.renamed.get?_object ref name, fun v hv => w.region.holds_property href hv⟩
  array := by
    intro w s ref hs href
    exact ⟨hs.store.renamed.array_eq ref, fun v hv => w.region.holds_item href hv⟩
  function := by
    intro w s ref hs href
    exact ⟨hs.store.function_eq ref, w.region.omits ref href, w.region.holds_function href⟩
  compare := by
    intro w s a b a' b' op p hs ha hb
    rw [ha.eq, hb.eq]
    exact hs.store.renamed.compare_eq g.rename_injective op a b p
  display := by
    intro w s v v' hs hv
    rw [hv.eq]
    exact hs.store.renamed.display_eq v
  assign := by
    intro w e mutable name value p v v' he hnode hv
    rw [hv.eq]
    exact assignOrDeclare_matches_grafted he (hnode _ .self _ rfl) hv.holds
  setProperty := by
    intro w ref v v' name href hv
    rw [hv.eq]
    exact matches_modifyStore rfl (w.region.exists_setProperty href hv.holds)
      fun s' hs' => hs'.setProperty ref name v
  pushItem := by
    intro w ref v v' href hv
    rw [hv.eq]
    exact matches_modifyStore rfl (w.region.exists_pushItem href hv.holds)
      fun s' hs' => hs'.pushItem ref v
  print := by
    intro w text
    refine matches_of_value (t := { w.state with output := w.state.output ++ text ++ "\n" })
      rfl (.refl w.region.toRegion) (.of_eq rfl) fun s hs => ?_
    have houtput := congrArg (· ++ text ++ "\n") hs.output
    exact ⟨_, _, rfl, ⟨hs.store, hs.depth, houtput, hs.events⟩, fun _ _ => trivial⟩
  addArray := by
    intro w values values' hvalues
    have hitems : w.region.Holds (values.toArray.toList.flatMap Value.locations) := hvalues.holds
    rw [hvalues.eq]
    refine matches_add (.of_eq rfl) (w.region.exists_addArray hitems) fun s' hs' => ?_
    obtain ⟨href, hstore⟩ := hs'.addArray values.toArray
    rw [List.map_toArray] at href hstore
    exact ⟨hstore, fun w' hknows => ⟨href, hknows⟩⟩
  addObject := by
    intro w entries entries' hentries
    have hregion := w.region.exists_addObject (w.region.holds_of_get?_ofList hentries.holds)
    rw [hentries.eq]
    refine matches_add (.of_eq rfl) hregion fun s' hs' => ?_
    obtain ⟨href, hstore⟩ := hs'.addObject (.ofList entries)
    rw [Table.map_ofList] at href hstore
    exact ⟨hstore, fun w' hknows => ⟨href, hknows⟩⟩
  addClosure := by
    intro w e params body p he hnode
    refine addFunction_matches (Region.holds_singleton.2 he) ?_ rfl
    rintro frame _ ⟨⟩
    exact (Node.omits_mk.1 hnode).2 body List.mem_cons_self
  addPush := addFunction_matches (Region.Holds.nil _) (Builtin.push.function_omits _) rfl
  addMethod := by
    intro w s ref v v' hs href hv
    have hf' : s.store.function (g.rename ref) = _ := hs.store.function_eq ref
    refine addFunction_matches (w.region.holds_method href hv.holds) (w.region.omits ref href) ?_
    rw [hv.eq]
    exact congrArg (fun f : Function =>
      { f with receivers := v.rename g.rename :: f.receivers }) hf'
  refuse := by
    rintro w callee f values values' line column ⟨-, -⟩ hcallee hvalues
    have hframe := w.region.holds_ofCall hcallee hvalues.holds f.params line column
    rw [hvalues.eq]
    refine matches_add (.of_eq rfl) (w.region.exists_addFrame hframe) fun s' hs' => ?_
    obtain ⟨-, hstore⟩ := hs'.addFrame (.ofCall callee f.params values line column)
    rw [Frame.rename_ofCall] at hstore
    exact ⟨hstore, fun _ _ => trivial⟩
  enter := by
    rintro w s callee f values values' line column p hs ⟨homits, hf⟩ hcallee hvalues
    obtain ⟨R, hext, hframe⟩ :=
      w.region.exists_called hcallee hf hvalues.holds line column p
    have hfunctions := w.state.functions_called callee f values line column p
    let inner : Ungrafted g.names := ⟨_, w.region.extend R hext (.of_eq hfunctions)⟩
    have hthis : Frame.thisName ∉ g.names := hreads .push _ (by simp [Builtin.reads])
    rw [hvalues.eq]
    refine ⟨inner, rfl, hs.called hthis callee f values line column p, hframe, homits, ?_⟩
    -- Leaving the call changes the number of calls only, so the region stays.
    intro w' hlater
    refine ⟨⟨w'.state.left, w'.region⟩, hext.trans hlater, rfl, fun s hs => hs.left, ?_⟩
    exact fun v hv => hv

end Ungrafted

namespace Program

def bare : State :=
  { store := (({} : Store).addFrame {}).2 }

def preludeNames : List String :=
  ["puts", "assert"]

def preludeFunctions : Array Function :=
  #[Builtin.puts.function, Builtin.assert.function]

theorem start_grafted :
    let bound? := (start.2.store.frame start.1).bindings.get?
    bare.Grafted ⟨preludeFunctions, start.1, preludeNames, bound?⟩ start.2 where
  store := by
    refine ⟨?_, Nat.zero_lt_one, fun _ _ => rfl⟩
    let s : Store := { bare.store with functions := preludeFunctions }
    change ((s.bind ⟨0⟩ "puts" _).bind ⟨0⟩ "assert" _).withdraw ⟨0⟩ preludeNames = _
    have hself : s.withdraw ⟨0⟩ preludeNames = s := Store.withdraw_eq_self fun _ _ => rfl
    rw [Store.withdraw_bind (by decide), Store.withdraw_bind (by decide), hself]
    simp [s, Store.graft, bare, Store.addFrame, Frame.rename, Table.map, Table.empty]
  depth := rfl
  output := rfl
  events := rfl

end Program

namespace Eval

/-- Evaluations from a state and from the same state with a graft end alike, and the graft is still
there. -/
theorem evaluate_grafted {g : Graft} (hreads : ∀ b : Builtin, ∀ name ∈ b.reads, name ∉ g.names)
    {s s' : State} (hs : s.Grafted g s') (settings : Settings) (n : Nat) {node : Node}
    {e : FrameRef} (hnode : node.Omits g.names)
    (hfunctions : ∀ ref, s.store.Reaches (.frame e) (.function ref) →
      (s.store.function ref).Omits g.names) :
    (evaluate settings n node e s').withdraw g.frame g.names =
      (evaluate settings n node e s).graft g.functions ∧
    ∀ t, (evaluate settings n node e s').final? = some t →
      ∀ name ∈ g.names, (t.store.frame g.frame).bindings.get? name = g.binding name := by
  let w : Ungrafted g.names :=
    ⟨s, { Region.reach s.store (.frame e) with omits := hfunctions }⟩
  have he : .frame e ∈ w.region.toRegion := Relation.ReflTransGen.refl
  have hend := evaluate_matches settings n node (S := Ungrafted.simulation hreads) (w := w)
    hnode he s' hs
  change (Ungrafted.comparison g).Ends w _ (evaluate settings n node e s) _ at hend
  generalize evaluate settings n node e s = x at hend
  generalize evaluate settings n node e s' = y at hend
  cases hend with
  | @value w' v v' t' _ hmate hpair =>
    have ht : w'.state.Grafted g t' := hmate
    refine ⟨?_, ?_⟩
    · rw [Outcome.withdraw, ht.eq, hpair.eq]
      rfl
    · rintro _ ⟨⟩
      exact ht.store.kept
  | @failure w' t' fault _ hmate =>
    have ht : w'.state.Grafted g t' := hmate
    refine ⟨?_, ?_⟩
    · rw [Outcome.withdraw, ht.eq]
      rfl
    · rintro _ ⟨⟩
      exact ht.store.kept
  | timeout => exact ⟨rfl, fun t ht => by cases ht⟩

/-- A variable of a name that no provided function looks up and that neither the tree nor a function
within reach mentions can be put into any frame that does not have it: the evaluation ends in the
same way, in a state that has this variable more and is the same otherwise. A tree without the names
that every program starts with is evaluated in the same way with and without these; only the
references to its own functions are moved up by the functions of these names. -/
theorem evaluate_ignores_unmentioned (settings : Settings) (n : Nat) (node : Node) :
    (∀ (e frame : FrameRef) (s : State) (name : String) (b : Binding),
      (∀ builtin : Builtin, name ∉ builtin.reads) → node.Omits [name] →
      (∀ ref, s.store.Reaches (.frame e) (.function ref) →
        (s.store.function ref).Omits [name]) →
      frame.index < s.store.frames.size → (s.store.frame frame).bindings.get? name = none →
      let result := evaluate settings n node e { s with store := s.store.bind frame name b }
      result.withdraw frame [name] = evaluate settings n node e s ∧
      ∀ t, result.final? = some t → (t.store.frame frame).bindings.get? name = some b) ∧
    (node.Omits Program.preludeNames →
      let (frame, s) := Program.start
      let result := evaluate settings n node frame s
      result.withdraw frame Program.preludeNames =
        (evaluate settings n node frame Program.bare).graft Program.preludeFunctions ∧
      ∀ t, result.final? = some t → ∀ name ∈ Program.preludeNames,
        (t.store.frame frame).bindings.get? name = (s.store.frame frame).bindings.get? name) := by
  constructor
  · intro e frame s name b hreads hnode hfunctions hframe hnew
    let g : Graft := ⟨#[], frame, [name], fun _ => some b⟩
    have hs : s.Grafted g { s with store := s.store.bind frame name b } :=
      ⟨Store.grafted_bind hframe hnew b, rfl, rfl, rfl⟩
    have hothers : ∀ builtin : Builtin, ∀ other ∈ builtin.reads, other ∉ g.names := by
      intro builtin other hother hmem
      exact hreads builtin (List.mem_singleton.1 hmem ▸ hother)
    obtain ⟨hsame, hkept⟩ := evaluate_grafted hothers hs settings n hnode hfunctions
    exact ⟨hsame.trans (Outcome.graft_empty _), fun t ht => hkept t ht name List.mem_cons_self⟩
  · intro hnode
    have hreads : ∀ builtin : Builtin, ∀ name ∈ builtin.reads, name ∉ Program.preludeNames := by
      intro builtin
      cases builtin <;> decide
    have hfunctions : ∀ ref, (Program.bare.store.function ref).Omits Program.preludeNames := by
      intro ref
      rw [Store.function_of_not_has (Nat.not_lt_zero _)]
      exact Function.default_omits _
    exact evaluate_grafted hreads Program.start_grafted settings n hnode
      fun ref _ => hfunctions ref

/-- Declares a function that declares a variable, and calls it. -/
def callsNewFunction : Node :=
  let body : Node := ⟨.assignment false "n" ⟨.number "1", .start⟩, .start⟩
  ⟨.statements [
    ⟨.assignment false "h" ⟨.function [] body, .start⟩, .start⟩,
    ⟨.call ⟨.identifier "h", .start⟩ [⟨.arguments [], .start⟩], .start⟩], .start⟩

theorem callsNewFunction_omits {names : List String} (hn : "n" ∉ names) (hh : "h" ∉ names) :
    callsNewFunction.Omits names := by
  simp [callsNewFunction, Node.omits_mk, NodeKind.name?, NodeKind.children, SuffixKind.children,
    hn, hh]

theorem evaluate_ignores_unmentioned_privateCounter :
    privateCounter.store.Reaches (.frame ⟨0⟩) (.function ⟨0⟩) ∧
    (evaluate {} 9 callsNewFunction ⟨0⟩ privateCounter).final?.isSome = true ∧
    (evaluate {} 9 callsNewFunction ⟨0⟩ { privateCounter with
        store := privateCounter.store.bind ⟨0⟩ "z" ⟨.function ⟨0⟩, true⟩ }).withdraw ⟨0⟩ ["z"] =
      evaluate {} 9 callsNewFunction ⟨0⟩ privateCounter ∧
    (evaluate {} 9 callsNewFunction ⟨0⟩ Program.start.2).withdraw ⟨0⟩ Program.preludeNames =
      (evaluate {} 9 callsNewFunction ⟨0⟩ Program.bare).graft Program.preludeFunctions := by
  have hlink : Location.function ⟨0⟩ ∈ privateCounter.store.links (.frame ⟨0⟩) := by
    decide +kernel
  have hreads : ∀ builtin : Builtin, "z" ∉ builtin.reads := by
    intro builtin
    cases builtin <;> decide
  have hnode : callsNewFunction.Omits ["z"] := callsNewFunction_omits (by decide) (by decide)
  have hfunctions : ∀ ref, (privateCounter.store.function ref).Omits ["z"] := by
    rintro ⟨_ | i⟩
    · rintro frame body ⟨⟩
      simp [Node.omits_mk, NodeKind.name?, NodeKind.children]
    · rw [Store.function_of_not_has (by simp [Store.Has, privateCounter])]
      exact Function.default_omits _
  obtain ⟨hadded, hbare⟩ := evaluate_ignores_unmentioned {} 9 callsNewFunction
  obtain ⟨hsame, -⟩ := hadded ⟨0⟩ ⟨0⟩ privateCounter "z" ⟨.function ⟨0⟩, true⟩ hreads hnode
    (fun ref _ => hfunctions ref) (by decide) (by decide +kernel)
  obtain ⟨hprelude, -⟩ := hbare (callsNewFunction_omits (by decide) (by decide))
  exact ⟨.single hlink, by decide +kernel, hsame, hprelude⟩

end Eval
end Scriptlet
