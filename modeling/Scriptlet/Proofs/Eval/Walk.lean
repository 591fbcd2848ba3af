import Scriptlet.Eval.Node
import Scriptlet.Proofs.Store.Region
import Scriptlet.Proofs.Store.Renaming
import Scriptlet.Proofs.Syntax.Tree
/-!
# One walk over the constructs

What is said of evaluations has two parts. What single reads and writes of the store do, and what a
call does, is different for every statement. That nothing else happens is the same for all of them,
and it is shown here once, construct by construct. A `Logic` says something of computations that run
side by side, one for each index, and has a law for everything that a step of evaluation does to a
state. Main statement: with these laws, what holds of the evaluations of the nodes inside a node and
of calls holds of a step at the node (`Logic.step_valid`).

The computations may differ in the places of the tree and in the references that functions have.
-/
namespace Scriptlet

/-! ## Results -/

/-- What computations result in: the places that a result refers to, and the result with other
references to functions. -/
class Result (α : Type) where
  locations : α → List Location
  rename : (FunctionRef → FunctionRef) → α → α
  rename_id : ∀ a, rename id a = a

namespace Result

variable {α : Type}

@[reducible]
def plain : Result α where
  locations _ := []
  rename _ a := a
  rename_id _ := rfl

instance : Result Unit := plain
instance : Result Bool := plain
instance : Result Int64 := plain
instance : Result String := plain

instance : Result Value where
  locations := Value.locations
  rename := Value.rename
  rename_id := Value.rename_id

instance [Result α] : Result (List α) where
  locations as := as.flatMap locations
  rename f as := as.map (rename f)
  rename_id as := by rw [funext rename_id, List.map_id']

instance [Result α] : Result (Option α) where
  locations a := a.elim [] locations
  rename f a := a.map (rename f)
  rename_id a := by rw [funext rename_id, Option.map_id']

instance [Result α] : Result (String × α) where
  locations entry := locations entry.2
  rename f entry := (entry.1, rename f entry.2)
  rename_id entry := by rw [rename_id]

end Result

open Result

/-- An error-prone operation whose error says what is wrong wherever it is reported. -/
def Placed {α : Type} (x : Position → Except Fault α) : Prop :=
  (∃ a, ∀ p, x p = .ok a) ∨ ∃ cause, ∀ p, x p = .error (.raised cause p)

section Placed

variable {α β : Type} {x : Position → Except Fault α}

theorem Placed.ok (a : α) : Placed fun _ => .ok a :=
  .inl ⟨a, fun _ => rfl⟩

theorem Placed.error (cause : Fault.Cause) :
    Placed fun p => (.error (.raised cause p) : Except Fault α) :=
  .inr ⟨cause, fun _ => rfl⟩

theorem Placed.bind {f : α → Position → Except Fault β} (hx : Placed x) (hf : ∀ a, Placed (f a)) :
    Placed fun p => x p >>= (f · p) := by
  rcases hx with ⟨a, ha⟩ | ⟨cause, hcause⟩
  · simp only [ha]
    exact hf a
  · simp only [hcause]
    exact .error cause

theorem Value.toInteger_placed (v : Value) : Placed (v.toInteger ·) := by
  cases v <;> first | exact .ok _ | exact .error _

theorem Value.toArray_placed (v : Value) : Placed (v.toArray ·) := by
  cases v <;> first | exact .ok _ | exact .error _

theorem Value.toObject_placed (v : Value) : Placed (v.toObject ·) := by
  cases v <;> first | exact .ok _ | exact .error _

theorem Arithmetic.ofInt_placed (n : Int) : Placed (ofInt n ·) := by
  unfold ofInt
  cases fit? n with
  | some m => exact .ok m
  | none => exact .error _

theorem Arithmetic.ofNat_placed (n : Nat) : Placed (ofNat n ·) :=
  ofInt_placed n

theorem Arithmetic.apply_placed (op : ArithmeticOperator) (a b : Int64) :
    Placed (apply op a b ·) := by
  unfold apply
  split
  · exact .error _
  · cases (compute? op a.toInt b.toInt).bind fit? with
    | some n => exact .ok n
    | none => exact .error _

theorem Arithmetic.applyUnary_placed (op : UnaryOperator) (v : Value) :
    Placed (applyUnary op v ·) := by
  cases op with
  | plus => exact .ok v
  | minus => exact v.toInteger_placed.bind fun n => (ofInt_placed _).bind fun m => .ok _
  | not => exact .ok _

theorem Store.compare_placed (s : Store) (op : ComparisonOperator) (a b : Value) :
    Placed (s.compare op a b ·) := by
  have horder : Placed (a.order b ·) := by
    unfold Value.order
    split <;> first | exact .ok _ | exact .error _
  cases op with
  | equal => exact .ok _
  | notEqual => exact .ok _
  | _ => exact horder.bind fun o => .ok _

end Placed

theorem Value.eq_array_of_toArray {v : Value} {p : Position} {ref : ArrayRef}
    (h : v.toArray p = .ok ref) : v = .array ref := by
  cases v <;> cases h
  rfl

theorem Value.eq_object_of_toObject {v : Value} {p : Position} {ref : ObjectRef}
    (h : v.toObject p = .ok ref) : v = .object ref := by
  cases v <;> cases h
  rfl

theorem Arithmetic.locations_applyUnary {op : UnaryOperator} {v result : Value} {p : Position}
    (h : applyUnary op v p = .ok result) : ∀ l ∈ result.locations, l ∈ v.locations := by
  cases op with
  | plus =>
    cases h
    exact fun _ hl => hl
  | not =>
    cases h
    exact fun _ hl => by cases hl
  | minus =>
    cases v <;> try cases h
    simp only [applyUnary, Value.toInteger, bind, Except.bind] at h
    split at h <;> cases h
    exact fun _ hl => by cases hl

/-! ## Logics -/

abbrev both {α : Sort*} (a b : α) : Bool → α :=
  fun i => bif i then b else a

/-- Something that is said of computations. What is known while they run is a world, and worlds only
move forward. -/
structure Judgement where
  /-- The computations that run side by side. -/
  Index : Type
  World : Type := Unit
  Later : World → World → Prop := fun _ _ => True
  /-- What the computations have got hold of. -/
  Knows : World → Location → Prop := fun _ _ => True
  Evaluates : World → Node → Prop := fun _ _ => True
  /-- The places at which a fault may be reported. -/
  Reports : World → Position → Prop := fun _ _ => True
  /-- The frame that nodes are evaluated in. -/
  frame : FrameRef
  place : Index → Position → Position
  rename : Index → FunctionRef → FunctionRef
  Valid : ∀ {α : Type} [Result α], World → (Index → Eval α) → Prop

def Judgement.Holds {α : Type} [Result α] (J : Judgement) (w : J.World) (a : α) : Prop :=
  ∀ l ∈ locations a, J.Knows w l

/-- A judgement that everything but calls and loops keeps up. -/
structure Logic extends Judgement where
  later_refl : ∀ w, Later w w := by intros; trivial
  later_trans : ∀ {w w' w''}, Later w w' → Later w' w'' → Later w w'' := by intros; trivial
  knows_later : ∀ {w w' l}, Later w w' → Knows w l → Knows w' l := by intros; trivial
  evaluates_later : ∀ {w w' node}, Later w w' → Evaluates w node → Evaluates w' node := by
    intros; trivial
  evaluates_child : ∀ {w} {node child : Node}, Evaluates w node → child ∈ node.kind.children →
    Evaluates w child := by intros; trivial
  reports_later : ∀ {w w' p}, Later w w' → Reports w p → Reports w' p := by intros; trivial
  reports_node : ∀ {w} {node : Node}, Evaluates w node → Reports w node.position := by
    intros; trivial
  reports_suffix : ∀ {w} {node : Node} {suffix : Suffix}, Evaluates w node →
    suffix ∈ node.kind.suffixes → Reports w suffix.position := by intros; trivial
  pure : ∀ {α : Type} [Result α] {w} {a : α}, toJudgement.Holds w a →
    Valid w fun i => Pure.pure (Result.rename (rename i) a)
  bind : ∀ {α β : Type} [Result α] [Result β] {w} {m : Index → Eval α} {f : Index → α → Eval β},
    Valid w m →
    (∀ w' a, Later w w' → toJudgement.Holds w' a →
      Valid w' fun i => f i (Result.rename (rename i) a)) →
    Valid w fun i => m i >>= f i
  raise : ∀ {α : Type} [Result α] {w p} (cause : Fault.Cause), Reports w p →
    Valid (α := α) w fun i => Eval.raise cause (place i p)
  -- What is read.
  lookup : ∀ {w name p}, Evaluates w ⟨.identifier name, p⟩ →
    Valid w fun i => Eval.lookup frame name (place i p)
  property : ∀ {w ref} (name : String), Knows w (.object ref) →
    Valid w fun _ => do return ((← Eval.store).object ref).get? name
  array : ∀ {w ref}, Knows w (.array ref) →
    Valid w fun _ => do return ((← Eval.store).array ref).toList
  compare : ∀ {w p} {a b : Value} (op : ComparisonOperator), toJudgement.Holds w a →
    toJudgement.Holds w b → Reports w p → Valid w fun i => do
      (← Eval.store).compare op (a.rename (rename i)) (b.rename (rename i)) (place i p)
  display : ∀ {w} {v : Value}, toJudgement.Holds w v →
    Valid w fun i => do return (← Eval.store).display (v.rename (rename i))
  -- What is written.
  assign : ∀ {w mutable name value p} {v : Value}, Evaluates w ⟨.assignment mutable name value, p⟩ →
    toJudgement.Holds w v →
    Valid w fun i => Eval.assignOrDeclare frame mutable name (v.rename (rename i)) (place i p)
  setProperty : ∀ {w ref} {v : Value} (name : String), Knows w (.object ref) →
    toJudgement.Holds w v →
    Valid w fun i => Eval.modifyStore (·.setProperty ref name (v.rename (rename i)))
  addArray : ∀ {w} {values : List Value}, toJudgement.Holds w values →
    Valid w fun i => do
      return Value.array (← Eval.add (·.addArray (Result.rename (rename i) values).toArray))
  addObject : ∀ {w} {entries : List (String × Value)}, toJudgement.Holds w entries →
    Valid w fun i => do
      return Value.object (← Eval.add (·.addObject (.ofList (Result.rename (rename i) entries))))
  addClosure : ∀ {w params body p}, Evaluates w ⟨.function params body, p⟩ →
    Valid w fun i => do
      let code := .closure frame (body.relocate (place i))
      return Value.function (← Eval.add (·.addFunction { params, code }))
  addPush : ∀ {w ref}, Knows w (.array ref) →
    Valid w fun _ => do
      let push ← Eval.add (·.addFunction Builtin.push.function)
      let f := (← Eval.store).function push
      let receivers := Value.array ref :: f.receivers
      return Value.function (← Eval.add (·.addFunction { f with receivers }))
  addMethod : ∀ {w ref} {v : Value}, Knows w (.function ref) → toJudgement.Holds w v →
    Valid w fun i => do
      let f := (← Eval.store).function (rename i ref)
      let receivers := v.rename (rename i) :: f.receivers
      return Value.function (← Eval.add (·.addFunction { f with receivers }))

namespace Eval

/-- What a call does as soon as its arguments have values. -/
def callWith (call : Function → FrameRef → Position → Eval Value) (callee : Value) (f : Function)
    (site : Position) (values : List Value) : Eval Value := do
  let line ← Arithmetic.ofNat site.line site
  let column ← Arithmetic.ofNat site.column site
  let inner ← add (·.addFrame (.ofCall callee f.params values line column))
  call f inner site

end Eval

namespace Logic

variable (L : Logic) {α β : Type} [Result α] [Result β] {w w' : L.World} {p : Position}

theorem holds_later {a : α} (h : L.Later w w') (ha : L.Holds w a) : L.Holds w' a :=
  fun l hl => L.knows_later h (ha l hl)

theorem holds_of_locations {a : α} (h : locations a = []) : L.Holds w a := by
  intro l hl
  rw [h] at hl
  cases hl

theorem holds_cons {a : α} {as : List α} (ha : L.Holds w a) (has : L.Holds w as) :
    L.Holds w (a :: as) := by
  intro l hl
  rcases List.mem_append.1 hl with hl | hl
  · exact ha l hl
  · exact has l hl

theorem holds_of_mem {a : α} {as : List α} (has : L.Holds w as) (h : a ∈ as) : L.Holds w a :=
  fun l hl => has l (List.mem_flatMap.2 ⟨a, h, hl⟩)

theorem read_bind {read : L.Index → Store → α} {f : L.Index → α → Eval β}
    (hread : L.Valid w fun i => do return read i (← Eval.store))
    (hf : ∀ w' a, L.Later w w' → L.Holds w' a →
      L.Valid w' fun i => f i (Result.rename (L.rename i) a)) :
    L.Valid w fun i => Eval.store >>= fun s => f i (read i s) := by
  have h := L.bind (m := fun i => do return read i (← Eval.store)) hread hf
  exact h

theorem lift_bind {γ : Type} {x : Position → Except Fault γ} (hx : Placed x) (hp : L.Reports w p)
    {f : L.Index → γ → Eval β} (hf : ∀ a, (∀ p, x p = .ok a) → L.Valid w fun i => f i a) :
    L.Valid w fun i => Eval.lift (x (L.place i p)) >>= f i := by
  rcases hx with ⟨a, ha⟩ | ⟨cause, hcause⟩
  · simp only [ha]
    exact hf a ha
  · simp only [hcause]
    exact L.raise cause hp

end Logic

namespace Eval

variable {L : Logic} {w : L.World} {p : Position} {v : Value}

/-! ## Properties -/

theorem integer_valid (n : Int64) : L.Valid w fun _ => Pure.pure (Value.integer n) :=
  L.pure (a := Value.integer n) (L.holds_of_locations rfl)

theorem size_valid (n : Nat) (hp : L.Reports w p) :
    L.Valid w fun i => do return Value.integer (← Arithmetic.ofNat n (L.place i p)) :=
  L.lift_bind (Arithmetic.ofNat_placed n) hp fun m _ => integer_valid m

theorem property_object (ref : ObjectRef) (name : String) (p : Position) :
    property (.object ref) name p = (do
      let found := ((← store).object ref).get? name
      found.elim (raise (.unknownProperty name .object) p) Pure.pure) := by
  funext s
  simp only [property, bind_apply, store]
  cases (s.store.object ref).get? name <;> rfl

/-- The properties of values, except for the function that arrays have. -/
theorem property_valid (hv : L.Holds w v) {name : String} (hname : v.type = .array → name ≠ "push")
    (hp : L.Reports w p) :
    L.Valid w fun i => property (v.rename (L.rename i)) name (L.place i p) := by
  have hunknown : ∀ {w'} (type : ValueType), L.Later w w' →
      L.Valid (α := Value) w' fun i => raise (.unknownProperty name type) (L.place i p) :=
    fun _ hlater => L.raise _ (L.reports_later hlater hp)
  cases v with
  | object ref =>
    have hread := L.property name (hv (.object ref) List.mem_cons_self)
    simp only [Value.rename, property_object]
    refine L.read_bind hread (f := fun i (found : Option Value) =>
      found.elim (raise (.unknownProperty name .object) (L.place i p)) Pure.pure)
      fun w' found hlater hfound => ?_
    cases found with
    | some v => exact L.pure (a := v) hfound
    | none => exact hunknown _ hlater
  | array ref =>
    have hread := L.array (hv (.array ref) List.mem_cons_self)
    by_cases hsize : name = "size"
    · simp only [Value.rename, property, hsize, if_true]
      refine L.read_bind hread (f := fun i (items : List Value) => do
        return Value.integer (← Arithmetic.ofNat items.length (L.place i p)))
        fun w' items hlater _ => ?_
      simp only [Result.rename, List.length_map]
      exact size_valid _ (L.reports_later hlater hp)
    · simp only [Value.rename, property, hsize, hname rfl, if_false]
      exact hunknown _ (L.later_refl w)
  | string text =>
    by_cases hsize : name = "size"
    · simp only [Value.rename, property, hsize, if_true]
      exact size_valid _ hp
    · simp only [Value.rename, property, hsize, if_false]
      exact hunknown _ (L.later_refl w)
  | _ => exact hunknown _ (L.later_refl w)

theorem member_valid (hv : L.Holds w v) (name : String) (hp : L.Reports w p) :
    L.Valid w fun i => member (v.rename (L.rename i)) name (L.place i p) := by
  by_cases hpush : v.type = .array ∧ name = "push"
  · obtain ⟨htype, rfl⟩ := hpush
    cases v with
    | array ref => exact L.addPush (hv (.array ref) List.mem_cons_self)
    | _ => cases htype
  · have hname : v.type = .array → name ≠ "push" := fun htype hname => hpush ⟨htype, hname⟩
    refine L.bind (property_valid hv hname hp) fun w' found hlater hfound => ?_
    cases found with
    | function ref =>
      exact L.addMethod (hfound (.function ref) List.mem_cons_self) (L.holds_later hlater hv)
    | _ => exact L.pure hfound

/-! ## Nodes in a row -/

/-- From a world on, whatever happens first, the evaluations of nodes are valid. -/
def Follows (L : Logic) (evaluate : L.Index → Node → FrameRef → Eval Value) (w : L.World)
    (nodes : List Node) : Prop :=
  ∀ w', L.Later w w' → ∀ node ∈ nodes,
    L.Valid w' fun i => evaluate i (node.relocate (L.place i)) L.frame

section Rows

variable {evaluate : L.Index → Node → FrameRef → Eval Value} {w' : L.World} {node : Node}
  {nodes : List Node}

theorem Follows.later (h : Follows L evaluate w nodes) (hlater : L.Later w w') :
    Follows L evaluate w' nodes :=
  fun w'' hlater' => h w'' (L.later_trans hlater hlater')

theorem Follows.valid (h : Follows L evaluate w nodes) (hnode : node ∈ nodes) :
    L.Valid w fun i => evaluate i (node.relocate (L.place i)) L.frame :=
  h w (L.later_refl w) node hnode

theorem Follows.mono {others : List Node} (h : Follows L evaluate w nodes)
    (hsub : ∀ node ∈ others, node ∈ nodes) : Follows L evaluate w others :=
  fun w' hlater node hnode => h w' hlater node (hsub node hnode)

theorem Follows.tail (h : Follows L evaluate w (node :: nodes)) : Follows L evaluate w nodes :=
  h.mono fun _ hnode => List.mem_cons_of_mem _ hnode

theorem Follows.head_bind {β : Type} [Result β] {f : L.Index → Value → Eval β}
    (h : Follows L evaluate w (node :: nodes))
    (hf : ∀ w' (v : Value), L.Later w w' → L.Holds w' v → Follows L evaluate w' nodes →
      L.Valid w' fun i => f i (v.rename (L.rename i))) :
    L.Valid w fun i => evaluate i (node.relocate (L.place i)) L.frame >>= f i :=
  L.bind (h.valid List.mem_cons_self) fun w' v hlater hv => hf w' v hlater hv (h.tail.later hlater)

theorem statements_valid (hv : L.Holds w v) (hnodes : Follows L evaluate w nodes) :
    L.Valid w fun i => statements (evaluate i) L.frame (v.rename (L.rename i))
      (nodes.map (·.relocate (L.place i))) := by
  induction nodes generalizing w v with
  | nil => exact L.pure hv
  | cons node nodes ih => exact hnodes.head_bind fun w' u _ hu hnodes => ih hu hnodes

/-- The values of the nodes, and as many of them as there are nodes. -/
theorem evaluateAll_bind_valid {β : Type} [Result β] {f : L.Index → List Value → Eval β}
    (hnodes : Follows L evaluate w nodes)
    (hf : ∀ w' values, L.Later w w' → L.Holds w' values → values.length = nodes.length →
      L.Valid w' fun i => f i (Result.rename (L.rename i) values)) :
    L.Valid w fun i =>
      evaluateAll (evaluate i) L.frame (nodes.map (·.relocate (L.place i))) >>= f i := by
  induction nodes generalizing w f with
  | nil => exact hf w [] (L.later_refl w) (L.holds_of_locations rfl) rfl
  | cons node nodes ih =>
    simp only [List.map_cons, evaluateAll, bind_assoc, pure_bind]
    refine hnodes.head_bind fun w' v hlater hv hnodes => ?_
    refine ih hnodes fun w'' values hlater' hvalues hlength => ?_
    exact hf w'' (v :: values) (L.later_trans hlater hlater')
      (L.holds_cons (L.holds_later hlater' hv) hvalues) (congrArg (· + 1) hlength)

theorem evaluateAll_valid (hnodes : Follows L evaluate w nodes) :
    L.Valid w fun i =>
      evaluateAll (evaluate i) L.frame (nodes.map (·.relocate (L.place i))) := by
  have h := evaluateAll_bind_valid (f := fun _ values => Pure.pure values) hnodes
    fun w' values _ hvalues _ => L.pure hvalues
  simpa only [bind_pure] using h

theorem branches_valid {otherwise : L.Index → Eval Value} {tried : List (Node × Node)}
    (hotherwise : ∀ w', L.Later w w' → L.Valid w' otherwise)
    (htried : Follows L evaluate w (tried.flatMap fun (condition, body) => [condition, body])) :
    L.Valid w fun i => branches (evaluate i) L.frame (otherwise i)
      (tried.map fun (condition, body) =>
        (condition.relocate (L.place i), body.relocate (L.place i))) := by
  induction tried generalizing w with
  | nil => exact hotherwise w (L.later_refl w)
  | cons branch tried ih =>
    obtain ⟨condition, body⟩ := branch
    refine htried.head_bind fun w' u hlater hu htried => ?_
    simp only [Value.truthy_rename]
    cases u.truthy with
    | true => exact htried.valid List.mem_cons_self
    | false =>
      exact ih (fun w'' hlater' => hotherwise w'' (L.later_trans hlater hlater')) htried.tail

theorem firstTruth_valid (stop : Bool) (hv : L.Holds w v) (hnodes : Follows L evaluate w nodes) :
    L.Valid w fun i => firstTruth (evaluate i) L.frame stop (v.rename (L.rename i))
      (nodes.map (·.relocate (L.place i))) := by
  induction nodes generalizing w v with
  | nil => exact L.pure hv
  | cons node nodes ih =>
    refine hnodes.head_bind fun w' u _ hu hnodes => ?_
    simp only [Value.truthy_rename]
    by_cases hstop : u.truthy = stop
    · simp only [hstop, if_true]
      exact L.pure hu
    · simp only [hstop, if_false]
      exact ih hu hnodes

theorem fold_valid (n : Int64) {rest : List (ArithmeticOperator × Node)}
    (hrest : Follows L evaluate w (rest.map (·.2)))
    (hreports : ∀ node ∈ rest.map (·.2), L.Reports w node.position) :
    L.Valid w fun i => fold (evaluate i) L.frame n
      (rest.map fun (op, operand) => (op, operand.relocate (L.place i))) := by
  induction rest generalizing w n with
  | nil => exact L.pure (a := n) (L.holds_of_locations rfl)
  | cons operand rest ih =>
    obtain ⟨op, node⟩ := operand
    rw [List.map_cons, List.forall_mem_cons] at hreports
    refine hrest.head_bind fun w' u hlater hu hrest => ?_
    have hp := L.reports_later hlater hreports.1
    simp only [Value.toInteger_rename, Node.relocate_position]
    refine L.lift_bind u.toInteger_placed hp fun m _ => ?_
    refine L.lift_bind (Arithmetic.apply_placed op n m) hp fun k _ => ?_
    exact ih k hrest fun node hnode => L.reports_later hlater (hreports.2 node hnode)

theorem properties_valid {entries : List (String × Node)}
    (hentries : Follows L evaluate w (entries.map (·.2))) :
    L.Valid w fun i => properties (evaluate i) L.frame
      (entries.map fun (name, value) => (name, value.relocate (L.place i))) := by
  induction entries generalizing w with
  | nil => exact L.pure (a := ([] : List (String × Value))) (L.holds_of_locations rfl)
  | cons entry entries ih =>
    obtain ⟨name, node⟩ := entry
    refine hentries.head_bind fun w' u _ hu hentries => ?_
    refine L.bind (ih hentries) fun w'' pairs hlater hpairs => ?_
    exact L.pure (a := (name, u) :: pairs)
      (L.holds_cons (a := (name, u)) (L.holds_later hlater hu) hpairs)

theorem displays_valid (hnodes : Follows L evaluate w nodes) :
    L.Valid w fun i =>
      displays (evaluate i) L.frame (nodes.map (·.relocate (L.place i))) := by
  induction nodes generalizing w with
  | nil => exact L.pure (a := "") (L.holds_of_locations rfl)
  | cons node nodes ih =>
    refine hnodes.head_bind fun w' u _ hu hnodes => ?_
    refine L.read_bind (L.display hu) (f := fun i text => do
      return text ++ (← displays (evaluate i) L.frame (nodes.map (·.relocate (L.place i)))))
      fun w'' text hlater _ => ?_
    refine L.bind (ih (hnodes.later hlater)) fun _ rest _ _ => ?_
    exact L.pure (a := text ++ rest) (L.holds_of_locations rfl)

theorem whileTruthy_valid {condition body : L.Index → Eval Value} (rounds : Nat)
    (htimeout : ∀ w', L.Valid (α := Value) w' fun _ => timeout)
    (hcondition : ∀ w', L.Later w w' → L.Valid w' condition)
    (hbody : ∀ w', L.Later w w' → L.Valid w' body) :
    L.Valid w fun i => whileTruthy (condition i) (body i) rounds := by
  induction rounds generalizing w with
  | zero => exact htimeout w
  | succ rounds ih =>
    refine L.bind (hcondition w (L.later_refl w)) fun w₁ (u : Value) h₁ hu => ?_
    simp only [Result.rename, Value.truthy_rename]
    cases u.truthy with
    | false => exact L.pure (a := Value.undefined) (L.holds_of_locations rfl)
    | true =>
      have hround : L.Valid w₁ fun i => discard (body i) :=
        L.bind (hbody w₁ h₁) fun w₂ _ _ _ => L.pure (a := ()) (L.holds_of_locations rfl)
      refine L.bind hround fun w₂ _ h₂ _ => ?_
      have hlater : ∀ {w'}, L.Later w₂ w' → L.Later w w' :=
        fun h => L.later_trans h₁ (L.later_trans h₂ h)
      exact ih (fun w' h => hcondition w' (hlater h)) fun w' h => hbody w' (hlater h)

end Rows

/-! ## Suffixes and calls -/

section Suffixes

variable {call : L.Index → Function → FrameRef → Position → Eval Value}
  {evaluate : L.Index → Node → FrameRef → Eval Value}

theorem item_valid (hv : L.Holds w v) {index : Node} (hindex : Follows L evaluate w [index])
    (hp : L.Reports w p) (hplace : L.Reports w index.position) :
    L.Valid w fun i => item (evaluate i) (v.rename (L.rename i)) (index.relocate (L.place i))
      (L.place i p) L.frame := by
  simp only [item, Value.toArray_rename, Node.relocate_position]
  refine L.lift_bind v.toArray_placed hp fun ref href => ?_
  cases Value.eq_array_of_toArray (href p)
  refine hindex.head_bind fun w₁ u h₁ _ _ => ?_
  simp only [Value.toInteger_rename]
  refine L.lift_bind u.toInteger_placed (L.reports_later h₁ hplace) fun n _ => ?_
  have hv := L.holds_later h₁ hv
  simp only [← Array.getElem?_toList]
  refine L.read_bind (L.array (hv _ List.mem_cons_self)) (f := fun i (items : List Value) =>
    Pure.pure (((Arithmetic.toNat? n).bind fun k => items[k]?).getD (.array ref)))
    fun w₂ items h₂ hitems => ?_
  have hv := L.holds_later h₂ hv
  cases Arithmetic.toNat? n with
  | none => exact L.pure hv
  | some k =>
    simp only [Option.bind_some, Result.rename, List.getElem?_map]
    cases hk : items[k]? with
    | none => exact L.pure hv
    | some found => exact L.pure (L.holds_of_mem hitems (List.mem_of_getElem? hk))

/-- Calls of functions that are known, with arguments whose evaluations are valid. -/
def Applies (L : Logic) (call : L.Index → Function → FrameRef → Position → Eval Value)
    (evaluate : L.Index → Node → FrameRef → Eval Value) : Prop :=
  ∀ {w : L.World} {ref : FunctionRef} {callee : Node} {suffixes : List Suffix} {site p : Position}
    {arguments : List Node}, L.Knows w (.function ref) →
    L.Evaluates w ⟨.call callee suffixes, site⟩ → L.Reports w p → Follows L evaluate w arguments →
    L.Valid w fun i => apply (call i) (evaluate i) (.function (L.rename i ref))
      (arguments.map (·.relocate (L.place i))) (L.place i site) (L.place i p) L.frame

variable (hcall : Applies L call evaluate)

include hcall

theorem apply_valid {callee : Node} {suffixes : List Suffix} {site : Position}
    (hsite : L.Evaluates w ⟨.call callee suffixes, site⟩) (hv : L.Holds w v)
    {arguments : List Node} (harguments : Follows L evaluate w arguments) (hp : L.Reports w p) :
    L.Valid w fun i => apply (call i) (evaluate i) (v.rename (L.rename i))
      (arguments.map (·.relocate (L.place i))) (L.place i site) (L.place i p) L.frame := by
  have hmismatch : ∀ type, L.Valid (α := Value) w fun i =>
      raise (.typeMismatch (.only .function) type) (L.place i p) := fun _ => L.raise _ hp
  cases v with
  | function ref => exact hcall (hv (.function ref) List.mem_cons_self) hsite hp harguments
  | _ => exact hmismatch _

theorem applySuffixes_valid {callee : Node} {all suffixes : List Suffix} {site : Position}
    (hsite : L.Evaluates w ⟨.call callee all, site⟩) (hsub : ∀ suffix ∈ suffixes, suffix ∈ all)
    (hv : L.Holds w v) (hchildren : Follows L evaluate w (suffixes.flatMap (·.kind.children))) :
    L.Valid w fun i => applySuffixes (call i) (evaluate i) (L.place i site) L.frame
      (v.rename (L.rename i)) (suffixes.map (·.relocate (L.place i))) := by
  induction suffixes generalizing w v with
  | nil => exact L.pure hv
  | cons suffix suffixes ih =>
    obtain ⟨hsuffix, hsub⟩ := List.forall_mem_cons.1 hsub
    have hp : L.Reports w suffix.position := L.reports_suffix hsite hsuffix
    have hevaluates : ∀ child ∈ suffix.kind.children, L.Evaluates w child := fun child hchild =>
      L.evaluates_child hsite
        (List.mem_cons_of_mem _ (List.mem_flatMap.2 ⟨suffix, hsuffix, hchild⟩))
    have hown : Follows L evaluate w suffix.kind.children :=
      hchildren.mono fun _ hchild => List.mem_append_left _ hchild
    have hrest : Follows L evaluate w (suffixes.flatMap (·.kind.children)) :=
      hchildren.mono fun _ hchild => List.mem_append_right _ hchild
    refine L.bind ?_ fun w' u hlater hu =>
      ih (L.evaluates_later hlater hsite) hsub hu (hrest.later hlater)
    obtain ⟨kind, p⟩ := suffix
    cases kind with
    | arguments items =>
      simp only [Suffix.relocate, SuffixKind.relocate, relocateNodes_eq_map]
      exact apply_valid hcall hsite hv hown hp
    | index index =>
      exact item_valid hv hown hp (L.reports_node (hevaluates index List.mem_cons_self))
    | property name => exact member_valid hv name hp

end Suffixes

/-! ## One step -/

section Step

variable {call : L.Index → Function → FrameRef → Position → Eval Value}
  {evaluate : L.Index → Node → FrameRef → Eval Value} {rounds : L.Index → Nat} {node : Node}

/-- Loops that are evaluated, for as many rounds as they may make. -/
def Loops (L : Logic) (rounds : L.Index → Nat) : Prop :=
  ∀ {w : L.World} {condition body : Node} {p : Position} {m m' : L.Index → Eval Value},
    L.Evaluates w ⟨.whileLoop condition body, p⟩ → (∀ w', L.Later w w' → L.Valid w' m) →
    (∀ w', L.Later w w' → L.Valid w' m') →
    L.Valid w fun i => whileTruthy (m i) (m' i) (rounds i)

/-- Loops may make the same number of rounds where computations may run out of steps. -/
theorem loops_of_timeout (htimeout : ∀ w, L.Valid (α := Value) w fun _ => timeout) (n : Nat) :
    Loops L fun _ => n :=
  fun _ hm hm' => whileTruthy_valid n htimeout hm hm'

/-- What is said of the evaluations inside a node, of calls and of loops holds of a step. -/
theorem step_valid (hcall : Applies L call evaluate) (hloop : Loops L rounds)
    (hnode : L.Evaluates w node) (hchildren : Follows L evaluate w node.kind.children) :
    L.Valid w fun i => step (call i) (evaluate i) (rounds i) (node.relocate (L.place i))
      L.frame := by
  obtain ⟨kind, p⟩ := node
  have hp : L.Reports w p := L.reports_node hnode
  have hreports : ∀ child ∈ kind.children, L.Reports w child.position := fun child hchild =>
    L.reports_node (L.evaluates_child hnode hchild)
  have hundefined : ∀ {w}, L.Holds w Value.undefined := L.holds_of_locations rfl
  cases kind with
  | statements body =>
    simp only [Node.relocate, NodeKind.relocate, relocateNodes_eq_map]
    exact statements_valid hundefined hchildren
  | whileLoop condition body =>
    exact hloop hnode (fun w' hlater => (hchildren.later hlater).valid List.mem_cons_self)
      fun w' hlater => (hchildren.later hlater).tail.valid List.mem_cons_self
  | conditional tried otherwise =>
    simp only [Node.relocate, NodeKind.relocate, relocateBranches_eq_map, relocateOption_eq_map]
    refine branches_valid (fun w' hlater => ?_)
      (hchildren.mono fun _ hchild => List.mem_append_left _ hchild)
    cases otherwise with
    | none => exact L.pure hundefined
    | some body =>
      exact (hchildren.later hlater).valid (List.mem_append_right _ (List.mem_singleton_self body))
  | function params body => exact L.addClosure hnode
  | call callee suffixes =>
    simp only [Node.relocate, NodeKind.relocate, relocateSuffixes_eq_map]
    refine hchildren.head_bind fun w' u hlater hu hrest => ?_
    exact applySuffixes_valid hcall (L.evaluates_later hlater hnode) (fun _ h => h) hu hrest
  | assignment mutable name value =>
    refine hchildren.head_bind fun w' u hlater hu _ => ?_
    exact L.assign (L.evaluates_later hlater hnode) hu
  | propertyAssignment object name value =>
    simp only [Node.relocate, NodeKind.relocate, step, Node.relocate_position]
    refine hchildren.head_bind fun w₁ u h₁ hu hrest => ?_
    simp only [Value.toObject_rename]
    refine L.lift_bind u.toObject_placed (L.reports_later h₁ (hreports _ List.mem_cons_self))
      fun ref href => ?_
    cases Value.eq_object_of_toObject (href object.position)
    refine hrest.head_bind fun w₂ v h₂ hv _ => ?_
    have href : L.Knows w₂ (.object ref) := L.knows_later h₂ (hu _ List.mem_cons_self)
    exact L.bind (L.setProperty name href hv) fun w₃ _ h₃ _ => L.pure (L.holds_later h₃ hv)
  | disjunction operands =>
    simp only [Node.relocate, NodeKind.relocate, relocateNodes_eq_map]
    exact firstTruth_valid true hundefined hchildren
  | conjunction operands =>
    simp only [Node.relocate, NodeKind.relocate, relocateNodes_eq_map]
    exact firstTruth_valid false hundefined hchildren
  | comparison left op right =>
    refine hchildren.head_bind fun w₁ a h₁ ha hrest => hrest.head_bind fun w₂ b h₂ hb _ => ?_
    have hcompare := L.compare op (L.holds_later h₂ ha) hb
      (L.reports_later h₂ (L.reports_later h₁ hp))
    have h := L.bind hcompare (f := fun _ b => Pure.pure (Value.bool b))
      fun w₃ b _ _ => L.pure (a := Value.bool b) (L.holds_of_locations rfl)
    exact h
  | unary op operand =>
    simp only [Node.relocate, NodeKind.relocate, step]
    refine hchildren.head_bind fun w' u hlater hu _ => ?_
    simp only [Value.applyUnary_rename]
    rcases Arithmetic.applyUnary_placed op u with ⟨a, ha⟩ | ⟨cause, hcause⟩
    · simp only [ha]
      exact L.pure (a := a) fun l hl => hu l (Arithmetic.locations_applyUnary (ha p) l hl)
    · simp only [hcause]
      exact L.raise cause (L.reports_later hlater hp)
  | arithmetic first rest =>
    simp only [Node.relocate, NodeKind.relocate, relocateLabelled_eq_map, step,
      Node.relocate_position]
    refine hchildren.head_bind fun w' u hlater hu hrest => ?_
    simp only [Value.toInteger_rename]
    refine L.lift_bind u.toInteger_placed (L.reports_later hlater (hreports _ List.mem_cons_self))
      fun n _ => ?_
    refine L.bind (fold_valid n hrest fun node hnode => ?_) fun w'' m _ _ => integer_valid m
    exact L.reports_later hlater (hreports node (List.mem_cons_of_mem _ hnode))
  | identifier name => exact L.lookup hnode
  | object entries =>
    simp only [Node.relocate, NodeKind.relocate, relocateProperties_eq_map]
    exact L.bind (properties_valid hchildren) fun w' pairs _ hpairs => L.addObject hpairs
  | array items =>
    simp only [Node.relocate, NodeKind.relocate, relocateNodes_eq_map]
    exact L.bind (evaluateAll_valid hchildren) fun w' values _ hvalues => L.addArray hvalues
  | number digits =>
    simp only [Node.relocate, NodeKind.relocate, step]
    cases Arithmetic.literal? digits with
    | none => exact L.raise _ hp
    | some n => exact integer_valid n
  | bool b => exact L.pure (a := Value.bool b) (L.holds_of_locations rfl)
  | undefined => exact L.pure hundefined
  | template parts =>
    simp only [Node.relocate, NodeKind.relocate, relocateNodes_eq_map]
    exact L.bind (displays_valid hchildren) fun w' text _ _ =>
      L.pure (a := Value.string text) (L.holds_of_locations rfl)
  | text content => exact L.pure (a := Value.string content) (L.holds_of_locations rfl)

end Step

/-! ## How functions are called -/

/-- A way of calling functions that a logic keeps up: reading a function from the store and entering
it. -/
structure Calls (L : Logic) (call : L.Index → Function → FrameRef → Position → Eval Value) where
  /-- What is known of functions that are read, and stays known while arguments are evaluated. -/
  Callable : L.World → FunctionRef → List Parameter → (L.Index → Function) → Prop
  later : ∀ {w w' ref params g}, L.Later w w' → Callable w ref params g → Callable w' ref params g
  params_eq : ∀ {w ref params g}, Callable w ref params g → ∀ i, (g i).params = params
  read : ∀ {w ref} {k : L.Index → Function → Eval Value}, L.Knows w (.function ref) →
    (∀ params g, Callable w ref params g → L.Valid w fun i => k i (g i)) →
    L.Valid w fun i => store >>= fun s => k i (s.function (L.rename i ref))
  enter : ∀ {w ref params g callee suffixes site} {values : List Value},
    L.Evaluates w ⟨.call callee suffixes, site⟩ → L.Knows w (.function ref) →
    Callable w ref params g → L.Holds w values → values.length = params.length →
    L.Valid w fun i => callWith (call i) (.function (L.rename i ref)) (g i) (L.place i site)
      (Result.rename (L.rename i) values)

section Calls

variable {call : L.Index → Function → FrameRef → Position → Eval Value}
  {evaluate : L.Index → Node → FrameRef → Eval Value} {node : Node}

theorem Calls.applies (C : Calls L call) : Applies L call evaluate := by
  intro w ref callee suffixes site p arguments hknows hsite hp harguments
  refine C.read hknows (k := fun i f =>
    let arguments := arguments.map (·.relocate (L.place i))
    if arguments.length < f.params.length then
      raise (.missingArguments f.params.length arguments.length) (L.place i p)
    else
      evaluateAll (evaluate i) L.frame (arguments.take f.params.length) >>=
        callWith (call i) (.function (L.rename i ref)) f (L.place i site)) fun params g hg => ?_
  simp only [List.length_map, C.params_eq hg]
  by_cases hmissing : arguments.length < params.length
  · simp only [hmissing, if_true]
    exact L.raise _ hp
  · simp only [hmissing, if_false, ← List.map_take]
    have htaken : Follows L evaluate w (arguments.take params.length) :=
      harguments.mono fun _ hnode => List.mem_of_mem_take hnode
    refine evaluateAll_bind_valid htaken fun w' values hlater hvalues hlength => ?_
    refine C.enter (L.evaluates_later hlater hsite) (L.knows_later hlater hknows)
      (C.later hlater hg) hvalues ?_
    rw [hlength, List.length_take, Nat.min_eq_left (Nat.le_of_not_lt hmissing)]

/-- Where places stay as they are, a call is made from the place of its node. -/
theorem callWith_valid (hplace : ∀ i, L.place i = id) {site : Position} (hp : L.Reports w site)
    {callee : L.Index → Value} {g : L.Index → Function} {values : L.Index → List Value}
    (hcall : ∀ line column, Arithmetic.ofNat site.line site = .ok line →
      Arithmetic.ofNat site.column site = .ok column → L.Valid w fun i => do
        let frame := .ofCall (callee i) (g i).params (values i) line column
        call i (g i) (← add (·.addFrame frame)) site) :
    L.Valid w fun i => callWith (call i) (callee i) (g i) (L.place i site) (values i) := by
  have h := L.lift_bind (Arithmetic.ofNat_placed site.line) hp fun line hline =>
    L.lift_bind (Arithmetic.ofNat_placed site.column) hp fun column hcolumn =>
      hcall line column (hline site) (hcolumn site)
  simp only [hplace, id] at h ⊢
  exact h

/-- All computations call the same functions, from the places of the tree. -/
def Calls.ofPlace (hplace : ∀ i, L.place i = id) (Callable : L.World → Function → Prop)
    (later : ∀ {w w' f}, L.Later w w' → Callable w f → Callable w' f)
    (read : ∀ {w ref} {k : L.Index → Function → Eval Value}, L.Knows w (.function ref) →
      (∀ f, Callable w f → L.Valid w fun i => k i f) →
      L.Valid w fun i => store >>= fun s => k i (s.function (L.rename i ref)))
    (enter : ∀ {w ref f site line column} {values : List Value}, L.Reports w site →
      L.Knows w (.function ref) → Callable w f → L.Holds w values →
      values.length = f.params.length → Arithmetic.ofNat site.line site = .ok line →
      Arithmetic.ofNat site.column site = .ok column → L.Valid w fun i => do
        let values := Result.rename (L.rename i) values
        let frame := .ofCall (.function (L.rename i ref)) f.params values line column
        call i f (← add (·.addFrame frame)) site) :
    Calls L call where
  Callable w _ params g := ∃ f, Callable w f ∧ params = f.params ∧ g = fun _ => f
  later h := by
    rintro ⟨f, hf, hparams, hg⟩
    exact ⟨f, later h hf, hparams, hg⟩
  params_eq := by
    rintro _ _ _ _ ⟨f, -, rfl, rfl⟩ _
    rfl
  read hknows hk := read hknows fun f hf => hk f.params (fun _ => f) ⟨f, hf, rfl, rfl⟩
  enter := by
    rintro w ref _ _ callee suffixes site values hsite hknows ⟨f, hf, rfl, rfl⟩ hvalues hlength
    have hp : L.Reports w site := L.reports_node hsite
    exact callWith_valid hplace hp fun line column hline hcolumn =>
      enter hp hknows hf hvalues hlength hline hcolumn

theorem step_valid_of_place (hplace : ∀ i, L.place i = id) {rounds : L.Index → Nat}
    (hcall : Applies L call evaluate) (hloop : Loops L rounds) (hnode : L.Evaluates w node)
    (hchildren : ∀ w', L.Later w w' → ∀ child ∈ node.kind.children,
      L.Valid w' fun i => evaluate i child L.frame) :
    L.Valid w fun i => step (call i) (evaluate i) (rounds i) node L.frame := by
  have h := step_valid hcall hloop hnode fun w' hlater child hchild => by
    simpa only [hplace, Node.relocate_id] using hchildren w' hlater child hchild
  simpa only [hplace, Node.relocate_id] using h

end Calls

end Eval

end Scriptlet
