import Scriptlet.Eval.Call
import Scriptlet.Proofs.Eval.CallFrame
import Scriptlet.Proofs.Syntax.Tree
import Scriptlet.Proofs.Value.Bisimulation
/-!
# States without places

Places of a source text get into a state in two ways: with the bodies of functions, and as the line
and the column that the frame of a call binds. Here both are taken out. Main statements: what a
state without places reads under other names, how it compares and displays values, and that it is
written to as the state itself is.
-/
namespace Scriptlet

namespace Table

variable {α β : Type}

def map (f : String → α → β) (t : Table α) : Table β where
  entries := t.entries.map fun (name, value) => (name, f name value)
  nodup := by
    rw [List.map_map]
    exact t.nodup

theorem names_map (f : String → α → β) (t : Table α) : (t.map f).names = t.names :=
  List.map_map

theorem get?_map (f : String → α → β) (t : Table α) (name : String) :
    (t.map f).get? name = (t.get? name).map (f name) := by
  obtain ⟨entries, hnodup⟩ := t
  simp only [get?, map]
  clear hnodup
  induction entries with
  | nil => rfl
  | cons e entries ih =>
    obtain ⟨key, value⟩ := e
    rw [List.map_cons, find?, find?]
    split
    · next h =>
      rw [h]
      rfl
    · exact ih

private theorem entries_eq_of_find? {xs ys : List (String × α)} (hnodup : (xs.map (·.1)).Nodup)
    (hnames : xs.map (·.1) = ys.map (·.1)) (hfind : ∀ name, find? name xs = find? name ys) :
    xs = ys := by
  induction xs generalizing ys with
  | nil => exact (List.map_eq_nil_iff.1 hnames.symm).symm
  | cons x xs ih =>
    obtain ⟨key, value⟩ := x
    obtain _ | ⟨⟨key', value'⟩, ys⟩ := ys
    · cases hnames
    simp only [List.map_cons, List.cons.injEq] at hnames
    obtain ⟨rfl, hnames⟩ := hnames
    rw [List.map_cons, List.nodup_cons] at hnodup
    have hvalue := hfind key
    simp only [find?, if_true, Option.some.injEq] at hvalue
    have hrest : ∀ name, find? name xs = find? name ys := by
      intro name
      by_cases hkey : key = name
      · subst hkey
        have hx : find? key xs = none := by
          rw [← Option.not_isSome_iff_eq_none, find?_isSome]
          exact hnodup.1
        have hy : find? key ys = none := by
          rw [← Option.not_isSome_iff_eq_none, find?_isSome, ← hnames]
          exact hnodup.1
        rw [hx, hy]
      · have := hfind name
        rwa [find?, find?, if_neg hkey, if_neg hkey] at this
    rw [hvalue, ih hnodup.2 hnames hrest]

/-- A table is determined by the order of its names and by their values. -/
theorem eq_of_get? {t u : Table α} (hnames : t.names = u.names)
    (hget : ∀ name, t.get? name = u.get? name) : t = u := by
  obtain ⟨xs, hxs⟩ := t
  obtain ⟨ys, hys⟩ := u
  congr
  exact entries_eq_of_find? hxs hnames hget

theorem map_insert (f : String → α → β) (t : Table α) (name : String) (value : α) :
    (t.insert name value).map f = (t.map f).insert name (f name value) := by
  apply eq_of_get?
  · simp only [names_map, names_insert]
  · intro other
    simp only [get?_map, get?_insert]
    split
    · next h =>
      rw [h]
      rfl
    · rfl

end Table

/-! ## Taking places out -/

/-- A variable that holds the line or the column of a call. -/
def Frame.holdsPlace (name : String) : Bool :=
  name = lineName || name = columnName

def Node.unplaced (tree : Node) : Node :=
  tree.relocate fun _ => .nowhere

/-- A variable without the line or column that it holds. -/
def Binding.unplaced (name : String) (b : Binding) : Binding :=
  if Frame.holdsPlace name then { b with value := .integer 0 } else b

def Frame.unplaced (frame : Frame) : Frame :=
  { frame with bindings := frame.bindings.map Binding.unplaced }

def Code.unplaced : Code → Code
  | .closure frame body => .closure frame body.unplaced
  | .builtin b => .builtin b

def Function.unplaced (f : Function) : Function :=
  { f with code := f.code.unplaced }

def Store.unplaced (s : Store) : Store :=
  { s with
    frames := s.frames.map Frame.unplaced
    functions := s.functions.map Function.unplaced }

def Event.unplaced : Event → Event
  | .declared name mutable _ => .declared name mutable .nowhere
  | .invoked params depth _ => .invoked params depth .nowhere
  | e => e

def State.unplaced (s : State) : State :=
  { s with store := s.store.unplaced, events := s.events.map Event.unplaced }

def Fault.unplaced : Fault → Fault
  | .raised cause _ => .raised cause .nowhere
  | fault => fault

def Outcome.unplaced {α : Type} : Outcome Fault α → Outcome Fault α
  | .value a s => .value a s.unplaced
  | .failure fault s => .failure fault.unplaced s.unplaced
  | .timeout => .timeout

/-! ## Reading without places -/

theorem Binding.unplaced_eq_id {name : String} (h : Frame.holdsPlace name = false) :
    Binding.unplaced name = id := by
  funext b
  simp [Binding.unplaced, h]

namespace Frame

variable {frame : Frame} {name : String}

theorem get?_unplaced (h : holdsPlace name = false) :
    frame.unplaced.bindings.get? name = frame.bindings.get? name := by
  rw [unplaced, Table.get?_map, Binding.unplaced_eq_id h, Option.map_id, id]

theorem get?_unplaced_of_holdsPlace (h : holdsPlace name = true) :
    frame.unplaced.bindings.get? name =
      (frame.bindings.get? name).map fun b => { b with value := .integer 0 } := by
  have hself : Binding.unplaced name = fun b => { b with value := .integer 0 } := by
    funext b
    simp [Binding.unplaced, h]
  rw [unplaced, Table.get?_map, hself]

theorem mutable_unplaced (name : String) (b : Binding) :
    (b.unplaced name).mutable = b.mutable := by
  rw [Binding.unplaced]
  split <;> rfl

theorem unplaced_ofCall (callee : Value) (params : List Parameter) (values : List Value)
    (line column : Int64) :
    (ofCall callee params values line column).unplaced = ofCall callee params values 0 0 := by
  suffices hbindings : (ofCall callee params values line column).bindings.map Binding.unplaced =
      (ofCall callee params values 0 0).bindings from
    congrArg (fun bindings => ({ bindings } : Frame)) hbindings
  rw [bindings_ofCall, bindings_ofCall, Table.map_insert, Table.map_insert]
  apply Table.eq_of_get?
  · simp only [Table.names_insert, Table.names_map]
  · intro other
    simp only [Table.get?_insert, Table.get?_map]
    split
    · rfl
    · next hcolumn =>
      split
      · rfl
      · next hline =>
        -- The variables of other names hold no place.
        have hother : holdsPlace other = false := by
          simp [holdsPlace, Ne.symm hline, Ne.symm hcolumn]
        rw [Binding.unplaced_eq_id hother, Option.map_id, id]

end Frame

namespace Store

variable {s : Store}

@[simp]
theorem frame_unplaced (s : Store) (ref : FrameRef) :
    s.unplaced.frame ref = (s.frame ref).unplaced := by
  simp only [frame, unplaced, Array.getD_eq_getD_getElem?, Array.getElem?_map]
  cases s.frames[ref.index]? <;> rfl

@[simp]
theorem function_unplaced (s : Store) (ref : FunctionRef) :
    s.unplaced.function ref = (s.function ref).unplaced := by
  simp only [function, unplaced, Array.getD_eq_getD_getElem?, Array.getElem?_map]
  cases s.functions[ref.index]? <;> rfl

@[simp]
theorem array_unplaced (s : Store) (ref : ArrayRef) : s.unplaced.array ref = s.array ref := rfl

@[simp]
theorem object_unplaced (s : Store) (ref : ObjectRef) : s.unplaced.object ref = s.object ref := rfl

theorem searchDepth_unplaced (s : Store) : s.unplaced.searchDepth = s.searchDepth := by
  simp [searchDepth, unplaced]

theorem get?_unplaced {name : String} (h : Frame.holdsPlace name = false) (ref : FrameRef) :
    s.unplaced.get? ref name = s.get? ref name := by
  rw [get?, get?, searchDepth_unplaced]
  generalize s.searchDepth = n
  induction n generalizing ref with
  | zero => rfl
  | succ n ih =>
    rw [getWithin, getWithin]
    simp only [frame_unplaced, object_unplaced, Frame.get?_unplaced h, ih]
    rfl

theorem target_unplaced (name : String) (ref : FrameRef) :
    s.unplaced.target ref name = s.target ref name := by
  rw [target, target, searchDepth_unplaced]
  generalize s.searchDepth = n
  induction n generalizing ref with
  | zero => rfl
  | succ n ih =>
    rw [targetWithin, targetWithin]
    simp only [frame_unplaced, object_unplaced, ih]
    rw [Frame.unplaced, Table.get?_map]
    cases (s.frame ref).bindings.get? name with
    | none => rfl
    | some b => simp only [Option.map_some, Frame.mutable_unplaced]

theorem Agree.congr {t : Store} (harrays : t.arrays = s.arrays) (hobjects : t.objects = s.objects)
    {R : Value → Value → Prop} {a b : Value} (h : s.Agree R a b) : t.Agree R a b := by
  have harray : ∀ ref, t.array ref = s.array ref := fun ref => by
    rw [Store.array, Store.array, harrays]
  have hobject : ∀ ref, t.object ref = s.object ref := fun ref => by
    rw [Store.object, Store.object, hobjects]
  cases h with
  | undefined => exact .undefined
  | integer n => exact .integer n
  | bool b => exact .bool b
  | string t => exact .string t
  | function ref => exact .function ref
  | array hitems => exact .array (by rwa [harray, harray])
  | object hnames hvalues => exact .object (by rwa [hobject, hobject]) (by rwa [hobject, hobject])

/-- Equality looks at arrays and objects alone. -/
theorem equal_congr {t : Store} (harrays : t.arrays = s.arrays) (hobjects : t.objects = s.objects)
    (a b : Value) : t.equal a b = s.equal a b := by
  rw [Bool.eq_iff_iff]
  constructor
  · intro h
    exact equal_of_isBisimulation
      (fun c d hcd => (equal_isBisimulation t c d hcd).congr harrays.symm hobjects.symm) h
  · intro h
    exact equal_of_isBisimulation
      (fun c d hcd => (equal_isBisimulation s c d hcd).congr harrays hobjects) h

theorem displayItems_eq_map (items : List View) :
    View.displayItems items = items.map View.display := by
  induction items with
  | nil => rfl
  | cons item items ih => rw [View.displayItems, ih, List.map_cons]

theorem displayProperties_eq_map (properties : List (String × View)) :
    View.displayProperties properties =
      properties.map fun (name, value) => name ++ ": " ++ value.display := by
  induction properties with
  | nil => rfl
  | cons property properties ih => rw [View.displayProperties, ih, List.map_cons]

/-- Functions are displayed without their bodies. -/
theorem display_unplaced (s : Store) (v : Value) : s.unplaced.display v = s.display v := by
  have hwithin : ∀ n path v,
      (s.unplaced.viewWithin n path v).display = (s.viewWithin n path v).display := by
    intro n
    induction n with
    | zero => intro path v; cases v <;> rfl
    | succ n ih =>
      intro path v
      cases v with
      | array ref =>
        rw [viewWithin, viewWithin]
        split
        · rfl
        · simp only [View.display, displayItems_eq_map, List.map_map, array_unplaced]
          congr 4
          funext v
          exact ih _ v
      | object ref =>
        rw [viewWithin, viewWithin]
        split
        · rfl
        · simp only [View.display, displayProperties_eq_map, List.map_map, object_unplaced]
          congr 4
          funext e
          simp only [Function.comp_apply, ih]
      | _ => rfl
  exact hwithin _ [] v

/-! ## Writing without places -/

theorem unplaced_modifyFrame {ref : FrameRef} {change change' : Frame → Frame}
    (h : ∀ frame, (change frame).unplaced = change' frame.unplaced) :
    (s.modifyFrame ref change).unplaced = s.unplaced.modifyFrame ref change' := by
  have hframes : (s.frames.modify ref.index change).map Frame.unplaced =
      (s.frames.map Frame.unplaced).modify ref.index change' := by
    apply Array.ext_getElem?
    intro i
    simp only [Array.getElem?_map, Array.getElem?_modify]
    split
    · simp [Option.map_map, Function.comp_def, h]
    · rfl
  simp [unplaced, modifyFrame, hframes]

theorem unplaced_bind {name : String} (h : Frame.holdsPlace name = false) (ref : FrameRef)
    (b : Binding) : (s.bind ref name b).unplaced = s.unplaced.bind ref name b := by
  apply unplaced_modifyFrame
  intro frame
  simp [Frame.unplaced, Table.map_insert, Binding.unplaced, h]

theorem unplaced_appendOuter (ref outer : FrameRef) :
    (s.appendOuter ref outer).unplaced = s.unplaced.appendOuter ref outer :=
  unplaced_modifyFrame fun _ => rfl

theorem unplaced_receive (ref : FrameRef) (receiver : Value) :
    (s.receive ref receiver).unplaced = s.unplaced.receive ref receiver := by
  have hthis : Frame.holdsPlace Frame.thisName = false := by decide
  have hbind := unplaced_bind (s := s) hthis ref ⟨receiver, false⟩
  cases receiver with
  | object object =>
    simp only [receive]
    rw [← hbind]
    exact unplaced_modifyFrame fun _ => rfl
  | _ => exact hbind

theorem unplaced_receiveAll (ref : FrameRef) (receivers : List Value) :
    (s.receiveAll ref receivers).unplaced = s.unplaced.receiveAll ref receivers := by
  induction receivers generalizing s with
  | nil => rfl
  | cons receiver receivers ih =>
    rw [receiveAll, List.foldl_cons, ← receiveAll, ih, unplaced_receive]
    rfl

theorem unplaced_write {name : String} (h : Frame.holdsPlace name = false) (v : Value)
    (owner : Owner) : (s.write name v owner).unplaced = s.unplaced.write name v owner := by
  cases owner with
  | binding frame => exact unplaced_bind h frame _
  | property object => rfl

theorem addFrame_unplaced (s : Store) (frame : Frame) :
    s.unplaced.addFrame frame.unplaced = ((s.addFrame frame).1, (s.addFrame frame).2.unplaced) := by
  simp [addFrame, unplaced]

theorem addFunction_unplaced (s : Store) (f : Function) :
    s.unplaced.addFunction f.unplaced = ((s.addFunction f).1, (s.addFunction f).2.unplaced) := by
  simp [addFunction, unplaced]

end Store

/-! ## Programs that do not ask for places -/

/-- A construct that reads or assigns the line or the column of a call. -/
def NodeKind.asksPlace : NodeKind → Bool
  | .identifier name => Frame.holdsPlace name
  | .assignment _ name _ => Frame.holdsPlace name
  | _ => false

/-- A place whose line and column integer values can hold. -/
def Position.Fits (p : Position) : Prop :=
  Arithmetic.Fits p.line ∧ Arithmetic.Fits p.column

/-- A tree that does not ask for the place of a call, and whose places integer values can hold. -/
def Node.Indifferent (tree : Node) : Prop :=
  ∀ node : Node, node.Within tree → node.position.Fits ∧ node.kind.asksPlace = false

theorem Node.indifferent_mk {kind : NodeKind} {p : Position} :
    (⟨kind, p⟩ : Node).Indifferent ↔ (p.Fits ∧ kind.asksPlace = false) ∧
      ∀ child ∈ kind.children, child.Indifferent :=
  Node.forall_within

def Function.Indifferent (f : Function) : Prop :=
  ∀ frame body, f.code = .closure frame body → body.Indifferent

/-- Lines and columns of calls are not negative, and no function asks for them. -/
structure Store.Regular (s : Store) : Prop where
  coordinates : ∀ ref name b, Frame.holdsPlace name = true →
    (s.frame ref).bindings.get? name = some b → ∃ n : Int64, 0 ≤ n.toInt ∧ b.value = .integer n
  bodies : ∀ ref, (s.function ref).Indifferent

/-- A value without places in the place of a line or a column: the same, or zero for a number that
is not negative. -/
def Value.LikePlace (v v' : Value) : Prop :=
  v' = v ∨ ∃ n : Int64, 0 ≤ n.toInt ∧ v = .integer n ∧ v' = .integer 0

namespace Store

variable {s t : Store}

theorem Regular.congr (h : s.Regular) (hframes : t.frames = s.frames)
    (hfunctions : t.functions = s.functions) : t.Regular where
  coordinates ref := by
    rw [frame, hframes]
    exact h.coordinates ref
  bodies ref := by
    rw [Store.function, hfunctions]
    exact h.bodies ref

theorem Regular.modifyFrame (h : s.Regular) (ref : FrameRef) {change : Frame → Frame}
    (hchange : ∀ frame name, Frame.holdsPlace name = true →
      (change frame).bindings.get? name = frame.bindings.get? name) :
    (s.modifyFrame ref change).Regular where
  coordinates other name b hname hb := by
    by_cases hlt : ref.index < s.frames.size
    · rw [frame_modifyFrame s ref other change hlt] at hb
      split at hb
      · rw [hchange _ name hname] at hb
        exact h.coordinates other name b hname hb
      · exact h.coordinates other name b hname hb
    · rw [modifyFrame_eq_self s ref change hlt] at hb
      exact h.coordinates other name b hname hb
  bodies := h.bodies

theorem Regular.bind (h : s.Regular) {name : String} (hname : Frame.holdsPlace name = false)
    (ref : FrameRef) (b : Binding) : (s.bind ref name b).Regular := by
  apply h.modifyFrame
  intro frame other hother
  have hne : name ≠ other := by
    rintro rfl
    rw [hname] at hother
    cases hother
  rw [Table.get?_insert, if_neg hne]

theorem Regular.write (h : s.Regular) {name : String} (hname : Frame.holdsPlace name = false)
    (v : Value) (owner : Owner) : (s.write name v owner).Regular := by
  cases owner with
  | binding frame => exact h.bind hname frame _
  | property object => exact h.congr rfl rfl

theorem Regular.appendOuter (h : s.Regular) (ref outer : FrameRef) :
    (s.appendOuter ref outer).Regular :=
  h.modifyFrame ref fun _ _ _ => rfl

theorem Regular.receiveAll (h : s.Regular) (ref : FrameRef) (receivers : List Value) :
    (s.receiveAll ref receivers).Regular := by
  induction receivers generalizing s with
  | nil => exact h
  | cons receiver receivers ih =>
    have hthis : Frame.holdsPlace Frame.thisName = false := by decide
    have hbind := h.bind hthis ref ⟨receiver, false⟩
    apply ih
    cases receiver with
    | object object => exact hbind.modifyFrame ref fun _ _ _ => rfl
    | _ => exact hbind

theorem Regular.addFrame (h : s.Regular) (callee : Value) (params : List Parameter)
    (values : List Value) {line column : Int64} (hline : 0 ≤ line.toInt)
    (hcolumn : 0 ≤ column.toInt) :
    (s.addFrame (.ofCall callee params values line column)).2.Regular where
  coordinates ref name b hname hb := by
    rw [frame_addFrame] at hb
    split at hb
    · rw [Frame.bindings_ofCall, Table.get?_insert, Table.get?_insert] at hb
      split at hb
      · cases hb
        exact ⟨column, hcolumn, rfl⟩
      · next hne =>
        have heq : Frame.lineName = name := by
          simpa [Frame.holdsPlace, Ne.symm hne, eq_comm] using hname
        rw [if_pos heq] at hb
        cases hb
        exact ⟨line, hline, rfl⟩
    · exact h.coordinates ref name b hname hb
  bodies := h.bodies

theorem Regular.addFunction (h : s.Regular) {f : Function} (hf : f.Indifferent) :
    (s.addFunction f).2.Regular where
  coordinates := h.coordinates
  bodies ref := by
    rw [function_addFunction]
    split
    · exact hf
    · exact h.bodies ref

theorem findSome?_rel {R : Value → Value → Prop} {f g : FrameRef → Option Value}
    (h : ∀ ref, Option.Rel R (f ref) (g ref)) (refs : List FrameRef) :
    Option.Rel R (refs.findSome? f) (refs.findSome? g) := by
  induction refs with
  | nil => exact .none
  | cons ref refs ih =>
    rw [List.findSome?_cons, List.findSome?_cons]
    have href := h ref
    generalize f ref = v at href
    generalize g ref = w at href
    cases href with
    | none => exact ih
    | some hR => exact .some hR

/-- The line and the column of a call read as numbers that are not negative, in both states. -/
theorem Regular.get?_rel (h : s.Regular) {name : String} (hname : Frame.holdsPlace name = true)
    (ref : FrameRef) :
    Option.Rel Value.LikePlace (s.get? ref name) (s.unplaced.get? ref name) := by
  rw [get?, get?, searchDepth_unplaced]
  generalize s.searchDepth = n
  induction n generalizing ref with
  | zero => exact .none
  | succ n ih =>
    rw [getWithin, getWithin]
    simp only [frame_unplaced, object_unplaced, Frame.get?_unplaced_of_holdsPlace hname]
    cases hb : (s.frame ref).bindings.get? name with
    | some b =>
      obtain ⟨k, hk, hvalue⟩ := h.coordinates ref name b hname hb
      exact .some (.inr ⟨k, hk, hvalue, rfl⟩)
    | none =>
      simp only [Option.map_none, Frame.unplaced]
      cases (s.frame ref).object.bind fun object => (s.object object).get? name with
      | some v => exact .some (.inl rfl)
      | none => exact findSome?_rel ih _

end Store

end Scriptlet
