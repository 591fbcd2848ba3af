import Scriptlet.Proofs.Store.Renaming
/-!
# Stores with something added

A store with some more variables in one of its frames, and with some more functions before its own.
The references to its own functions are moved up by those, and that is all the difference. Main
statements: names other than those of the added variables are looked up alike, and a write on both
sides keeps the difference as it is.
-/
namespace Scriptlet

namespace Table

variable {α β : Type}

def remove (names : List String) (t : Table α) : Table α where
  entries := t.entries.filter fun (name, _) => name ∉ names
  nodup := t.nodup.sublist (List.filter_sublist.map _)

variable {names : List String} {t : Table α} {name : String}

theorem names_remove : (t.remove names).names = t.names.filter (· ∉ names) := by
  rw [Table.names, Table.names, List.filter_map]
  rfl

theorem get?_remove : (t.remove names).get? name = if name ∈ names then none else t.get? name := by
  obtain ⟨entries, hnodup⟩ := t
  simp only [get?, remove]
  clear hnodup
  induction entries with
  | nil => simp [find?]
  | cons e entries ih =>
    obtain ⟨key, value⟩ := e
    by_cases hkey : key ∈ names
    · rw [List.filter_cons_of_neg (by simpa using hkey), ih, find?]
      by_cases hname : key = name
      · simp [← hname, hkey]
      · simp [hname]
    · rw [List.filter_cons_of_pos (by simpa using hkey), find?, find?, ih]
      by_cases hname : key = name
      · simp [← hname, hkey]
      · simp [hname]

theorem remove_insert_of_notMem (h : name ∉ names) (value : α) :
    (t.insert name value).remove names = (t.remove names).insert name value := by
  apply eq_of_get?
  · simp only [names_remove, names_insert, List.mem_filter, decide_not]
    split <;> simp_all
  · intro other
    simp only [get?_remove, get?_insert]
    by_cases hother : name = other
    · simp [← hother, h]
    · simp [hother]

theorem remove_insert_of_mem (h : name ∈ names) (value : α) :
    (t.insert name value).remove names = t.remove names := by
  apply eq_of_get?
  · simp only [names_remove, names_insert]
    split
    · rfl
    · simp [h]
  · intro other
    simp only [get?_remove, get?_insert]
    by_cases hother : name = other
    · simp [← hother, h]
    · simp [hother]

theorem remove_eq_self (h : ∀ name ∈ names, t.get? name = none) : t.remove names = t := by
  apply eq_of_get?
  · rw [names_remove, List.filter_eq_self]
    intro name hname
    rw [← contains_iff, contains] at hname
    simp only [decide_eq_true_eq]
    intro hmem
    rw [h name hmem] at hname
    cases hname
  · intro name
    rw [get?_remove]
    split
    · next hmem => exact (h name hmem).symm
    · rfl

theorem map_ofList (f : String → α → β) (pairs : List (String × α)) :
    (ofList pairs).map f = ofList (pairs.map fun e => (e.1, f e.1 e.2)) := by
  have hfold : ∀ (t : Table α),
      (pairs.foldl (fun t (name, value) => t.insert name value) t).map f =
        (pairs.map fun e => (e.1, f e.1 e.2)).foldl
          (fun t (name, value) => t.insert name value) (t.map f) := by
    induction pairs with
    | nil => exact fun t => rfl
    | cons pair pairs ih =>
      intro t
      rw [List.foldl_cons, List.map_cons, List.foldl_cons, ih, map_insert]
  exact hfold empty

end Table

def Frame.remove (names : List String) (frame : Frame) : Frame :=
  { frame with bindings := frame.bindings.remove names }

theorem Frame.rename_ofCall (rename : FunctionRef → FunctionRef) (callee : Value)
    (params : List Parameter) (values : List Value) (line column : Int64) :
    (ofCall callee params values line column).rename rename =
      ofCall (callee.rename rename) params (values.map (·.rename rename)) line column := by
  have hparams : (params.zipWith (fun param v => (param.name, (⟨v, param.mutable⟩ : Binding)))
      values).map (fun e => (e.1, e.2.rename rename)) =
      params.zipWith (fun param v => (param.name, (⟨v, param.mutable⟩ : Binding)))
        (values.map (·.rename rename)) := by
    rw [List.map_zipWith, List.zipWith_map_right]
    rfl
  simp only [ofCall, Frame.rename, Table.map_ofList, List.map_append, hparams]
  rfl

/-- What one store has beyond another: functions before the others, and variables of a frame. -/
structure Graft where
  functions : Array Function
  frame : FrameRef
  /-- The names of the variables. -/
  names : List String
  /-- The variables. -/
  binding : String → Option Binding

namespace Store

/-- The reference to a function that has the given number of functions put before it. -/
def shift (n : Nat) (ref : FunctionRef) : FunctionRef :=
  ⟨n + ref.index⟩

def graft (functions : Array Function) (s : Store) : Store where
  frames := s.frames.map (·.rename (shift functions.size))
  arrays := s.arrays.map (·.map (·.rename (shift functions.size)))
  objects := s.objects.map (·.map fun _ v => v.rename (shift functions.size))
  functions := functions ++ s.functions.map (·.rename (shift functions.size))

def withdraw (frame : FrameRef) (names : List String) (s : Store) : Store :=
  s.modifyFrame frame (·.remove names)

/-- The second store is the first one with a graft. -/
structure Grafted (g : Graft) (s s' : Store) : Prop where
  eq : s'.withdraw g.frame g.names = s.graft g.functions
  inside : g.frame.index < s'.frames.size
  kept : ∀ name ∈ g.names, (s'.frame g.frame).bindings.get? name = g.binding name

end Store

def Graft.rename (g : Graft) : FunctionRef → FunctionRef :=
  Store.shift g.functions.size

theorem Graft.rename_injective (g : Graft) : Function.Injective g.rename := by
  intro a b h
  simp only [Graft.rename, Store.shift, FunctionRef.mk.injEq] at h
  exact FunctionRef.ext (by omega)

namespace Store

variable {g : Graft} {s s' : Store}

theorem frame_graft (functions : Array Function) (s : Store) (ref : FrameRef) :
    (s.graft functions).frame ref = (s.frame ref).rename (shift functions.size) := by
  simp only [frame, graft, Array.getD_eq_getD_getElem?, Array.getElem?_map]
  cases s.frames[ref.index]? <;> rfl

theorem shift_zero : shift 0 = id := by
  funext ref
  exact FunctionRef.ext (Nat.zero_add _)

theorem graft_empty (s : Store) : s.graft #[] = s := by
  have hframe : ∀ frame : Frame, frame.rename id = frame := by
    intro frame
    rw [Frame.rename, Table.map_id _ fun _ b => b.rename_id]
  have hobject : ∀ object : Table Value, (object.map fun _ v => v) = object :=
    fun object => object.map_id fun _ _ => rfl
  simp [graft, shift_zero, hframe, hobject, Value.rename_id, Function.rename_id]

theorem withdraw_bind {names : List String} {name : String} (h : name ∈ names) (ref : FrameRef)
    (b : Binding) : (s.bind ref name b).withdraw ref names = s.withdraw ref names := by
  simp only [bind, withdraw, modifyFrame, mk.injEq, and_true]
  apply Array.ext_getElem?
  intro i
  simp only [Array.getElem?_modify]
  by_cases hi : ref.index = i
  · simp [hi, Function.comp_def, Frame.remove, Table.remove_insert_of_mem h]
  · simp [hi]

theorem withdraw_eq_self {ref : FrameRef} {names : List String}
    (h : ∀ name ∈ names, (s.frame ref).bindings.get? name = none) :
    s.withdraw ref names = s := by
  have hframes : s.frames.modify ref.index (·.remove names) = s.frames := by
    apply Array.ext_getElem?
    intro i
    rw [Array.getElem?_modify]
    by_cases hi : ref.index = i
    · cases hframe : s.frames[i]? with
      | none => simp
      | some frame =>
        have hself : s.frame ref = frame := by
          simp [Store.frame, Array.getD_eq_getD_getElem?, hi, hframe]
        rw [hself] at h
        simp [hi, Frame.remove, Table.remove_eq_self h]
    · rw [if_neg hi]
  rw [withdraw, modifyFrame, hframes]

theorem grafted_bind {ref : FrameRef} {name : String} (href : ref.index < s.frames.size)
    (hnew : (s.frame ref).bindings.get? name = none) (b : Binding) :
    Grafted ⟨#[], ref, [name], fun _ => some b⟩ s (s.bind ref name b) where
  eq := by
    rw [withdraw_bind List.mem_cons_self, withdraw_eq_self (by simpa using hnew), graft_empty]
  inside := by simpa [bind, modifyFrame] using href
  kept other hother := by
    rw [get?_bind s ref ref name other b href, if_pos ⟨rfl, (List.mem_singleton.1 hother).symm⟩]

namespace Grafted

variable (h : Grafted g s s')

include h

/-! ## Reading -/

theorem renamed : Renamed g.rename s s' where
  arrays := congrArg Store.arrays h.eq
  objects := congrArg Store.objects h.eq

theorem size_frames : s'.frames.size = s.frames.size := by
  have hsize := congrArg (·.frames.size) h.eq
  simpa [withdraw, modifyFrame, graft] using hsize

theorem frame_eq (ref : FrameRef) :
    (if g.frame = ref then (s'.frame ref).remove g.names else s'.frame ref) =
      (s.frame ref).rename g.rename := by
  rw [Graft.rename, ← frame_graft, ← h.eq, withdraw, frame_modifyFrame s' g.frame ref _ h.inside]

theorem outers_eq (ref : FrameRef) : (s'.frame ref).outers = (s.frame ref).outers := by
  have hframe := congrArg Frame.outers (h.frame_eq ref)
  split at hframe <;> exact hframe

theorem associated_eq (ref : FrameRef) : (s'.frame ref).object = (s.frame ref).object := by
  have hframe := congrArg Frame.object (h.frame_eq ref)
  split at hframe <;> exact hframe

theorem get?_binding {name : String} (hname : name ∉ g.names) (ref : FrameRef) :
    (s'.frame ref).bindings.get? name =
      ((s.frame ref).bindings.get? name).map (·.rename g.rename) := by
  have hframe := congrArg (·.bindings.get? name) (h.frame_eq ref)
  simp only [Frame.rename, Table.get?_map] at hframe
  rw [← hframe]
  split
  · rw [Frame.remove, Table.get?_remove, if_neg hname]
  · rfl

theorem get?_eq {name : String} (hname : name ∉ g.names) (ref : FrameRef) :
    s'.get? ref name = (s.get? ref name).map (·.rename g.rename) := by
  rw [get?, get?, searchDepth, searchDepth, h.size_frames]
  exact h.renamed.getWithin_eq h.outers_eq h.associated_eq (h.get?_binding hname) _ ref

theorem has_eq {name : String} (hname : name ∉ g.names) (ref : FrameRef) :
    s'.has ref name = s.has ref name := by
  rw [has, has, h.get?_eq hname, Option.isSome_map]

theorem target_eq {name : String} (hname : name ∉ g.names) (ref : FrameRef) :
    s'.target ref name = s.target ref name := by
  rw [target, target, searchDepth, searchDepth, h.size_frames]
  exact h.renamed.targetWithin_eq h.outers_eq h.associated_eq (h.get?_binding hname) _ ref

theorem functions_eq : s'.functions = g.functions ++ s.functions.map (·.rename g.rename) :=
  congrArg Store.functions h.eq

theorem function_eq (ref : FunctionRef) :
    s'.function (g.rename ref) = (s.function ref).rename g.rename := by
  simp only [function, h.functions_eq, Array.getD_eq_getD_getElem?, Graft.rename, shift]
  rw [Array.getElem?_append_right (by omega), Nat.add_sub_cancel_left, Array.getElem?_map]
  cases s.functions[ref.index]? <;> rfl

/-! ## Writing -/

theorem modifyFrame (ref : FrameRef) {change change' : Frame → Frame}
    (hremove : ∀ frame, (change' frame).remove g.names = change' (frame.remove g.names))
    (hrename : ∀ frame, (change frame).rename g.rename = change' (frame.rename g.rename))
    (hkept : ∀ frame, ∀ name ∈ g.names,
      (change' frame).bindings.get? name = frame.bindings.get? name) :
    Grafted g (s.modifyFrame ref change) (s'.modifyFrame ref change') := by
  have hwithdraw : (s'.modifyFrame ref change').withdraw g.frame g.names =
      (s'.withdraw g.frame g.names).modifyFrame ref change' := by
    simp only [withdraw, Store.modifyFrame, mk.injEq, and_true]
    apply Array.ext_getElem?
    intro i
    simp only [Array.getElem?_modify]
    by_cases hi : g.frame.index = i <;> by_cases hj : ref.index = i <;>
      simp [hi, hj, Function.comp_def, hremove]
  have hgraft : (s.graft g.functions).modifyFrame ref change' =
      (s.modifyFrame ref change).graft g.functions := by
    simp only [graft, Store.modifyFrame, mk.injEq, and_true]
    apply Array.ext_getElem?
    intro i
    simp only [Array.getElem?_modify, Array.getElem?_map]
    have hrename := fun frame => (hrename frame).symm
    rw [Graft.rename] at hrename
    by_cases hj : ref.index = i
    · simp [hj, Function.comp_def, hrename]
    · simp [hj]
  constructor
  · rw [hwithdraw, h.eq, hgraft]
  · simpa [Store.modifyFrame] using h.inside
  · intro name hname
    rw [← h.kept name hname]
    by_cases hlt : ref.index < s'.frames.size
    · rw [frame_modifyFrame s' ref g.frame change' hlt]
      split
      · exact hkept _ name hname
      · rfl
    · rw [modifyFrame_eq_self s' ref change' hlt]

theorem bind {name : String} (hname : name ∉ g.names) (ref : FrameRef) (b : Binding) :
    Grafted g (s.bind ref name b) (s'.bind ref name (b.rename g.rename)) := by
  apply h.modifyFrame ref
  · intro frame
    simp only [Frame.remove, Table.remove_insert_of_notMem hname]
  · intro frame
    simp only [Frame.rename, Table.map_insert]
  · intro frame other hother
    have hne : name ≠ other := fun heq => hname (heq ▸ hother)
    simp only [Table.get?_insert, if_neg hne]

theorem appendOuter (ref outer : FrameRef) :
    Grafted g (s.appendOuter ref outer) (s'.appendOuter ref outer) :=
  h.modifyFrame ref (fun _ => rfl) (fun _ => rfl) (fun _ _ _ => rfl)

theorem associate (ref : FrameRef) (object : ObjectRef) :
    Grafted g (s.associate ref object) (s'.associate ref object) :=
  h.modifyFrame ref (fun _ => rfl) (fun _ => rfl) (fun _ _ _ => rfl)

theorem receive (hthis : Frame.thisName ∉ g.names) (ref : FrameRef) (receiver : Value) :
    Grafted g (s.receive ref receiver) (s'.receive ref (receiver.rename g.rename)) := by
  have hbind := h.bind hthis ref ⟨receiver, false⟩
  cases receiver with
  | object object => exact hbind.associate ref object
  | _ => exact hbind

theorem setProperty (ref : ObjectRef) (name : String) (v : Value) :
    Grafted g (s.setProperty ref name v) (s'.setProperty ref name (v.rename g.rename)) := by
  have hobjects : (s.objects.map (·.map fun _ v => v.rename g.rename)).modify ref.index
      (·.insert name (v.rename g.rename)) =
      (s.objects.modify ref.index (·.insert name v)).map
        (·.map fun _ v => v.rename g.rename) := by
    apply Array.ext_getElem?
    intro i
    simp only [Array.getElem?_modify, Array.getElem?_map]
    by_cases hi : ref.index = i
    · simp [hi, Function.comp_def, Table.map_insert]
    · simp [hi]
  refine ⟨?_, h.inside, h.kept⟩
  change (s'.withdraw g.frame g.names).setProperty ref name (v.rename g.rename) = _
  rw [h.eq, Store.setProperty, Store.setProperty, graft, graft]
  simp only [mk.injEq, true_and, and_true]
  exact hobjects

theorem pushItem (ref : ArrayRef) (v : Value) :
    Grafted g (s.pushItem ref v) (s'.pushItem ref (v.rename g.rename)) := by
  have harrays : (s.arrays.map (·.map (·.rename g.rename))).modify ref.index
      (·.push (v.rename g.rename)) =
      (s.arrays.modify ref.index (·.push v)).map (·.map (·.rename g.rename)) := by
    apply Array.ext_getElem?
    intro i
    simp only [Array.getElem?_modify, Array.getElem?_map]
    by_cases hi : ref.index = i
    · simp [hi, Function.comp_def]
    · simp [hi]
  refine ⟨?_, h.inside, h.kept⟩
  change (s'.withdraw g.frame g.names).pushItem ref (v.rename g.rename) = _
  rw [h.eq, Store.pushItem, Store.pushItem, graft, graft]
  simp only [mk.injEq, true_and, and_true]
  exact harrays

theorem write {name : String} (hname : name ∉ g.names) (v : Value) (owner : Owner) :
    Grafted g (s.write name v owner) (s'.write name (v.rename g.rename) owner) := by
  cases owner with
  | binding frame => exact h.bind hname frame ⟨v, true⟩
  | property object => exact h.setProperty object name v

theorem receiveAll (hthis : Frame.thisName ∉ g.names) (ref : FrameRef) (receivers : List Value) :
    Grafted g (s.receiveAll ref receivers)
      (s'.receiveAll ref (receivers.map (·.rename g.rename))) := by
  induction receivers generalizing s s' with
  | nil => exact h
  | cons receiver receivers ih => exact ih (h.receive hthis ref receiver)

/-! ## Adding -/

theorem addFrame (frame : Frame) :
    (s'.addFrame (frame.rename g.rename)).1 = (s.addFrame frame).1 ∧
    Grafted g (s.addFrame frame).2 (s'.addFrame (frame.rename g.rename)).2 := by
  have hwithdraw : (s'.addFrame (frame.rename g.rename)).2.withdraw g.frame g.names =
      ((s'.withdraw g.frame g.names).addFrame (frame.rename g.rename)).2 := by
    simp only [withdraw, Store.addFrame, Store.modifyFrame, mk.injEq, and_true]
    apply Array.ext_getElem?
    intro i
    have hlt := h.inside
    simp only [Array.getElem?_modify, Array.getElem?_push, Array.size_modify]
    by_cases hi : g.frame.index = i
    · have hne : i ≠ s'.frames.size := by omega
      simp [hi, hne]
    · simp [hi]
  refine ⟨?_, ?_, ?_, ?_⟩
  · simp [Store.addFrame, h.size_frames]
  · rw [hwithdraw, h.eq]
    simp [graft, Store.addFrame, Graft.rename]
  · simpa [Store.addFrame] using Nat.lt_succ_of_lt h.inside
  · intro name hname
    rw [frame_addFrame_of_lt s' _ h.inside]
    exact h.kept name hname

theorem addArray (items : Array Value) :
    (s'.addArray (items.map (·.rename g.rename))).1 = (s.addArray items).1 ∧
    Grafted g (s.addArray items).2 (s'.addArray (items.map (·.rename g.rename))).2 := by
  refine ⟨?_, ?_, h.inside, h.kept⟩
  · simp [Store.addArray, h.renamed.arrays]
  · change ((s'.withdraw g.frame g.names).addArray (items.map (·.rename g.rename))).2 = _
    rw [h.eq]
    simp [graft, Store.addArray, Graft.rename]

theorem addObject (properties : Table Value) :
    (s'.addObject (properties.map fun _ v => v.rename g.rename)).1 = (s.addObject properties).1 ∧
    Grafted g (s.addObject properties).2
      (s'.addObject (properties.map fun _ v => v.rename g.rename)).2 := by
  refine ⟨?_, ?_, h.inside, h.kept⟩
  · simp [Store.addObject, h.renamed.objects]
  · change ((s'.withdraw g.frame g.names).addObject
      (properties.map fun _ v => v.rename g.rename)).2 = _
    rw [h.eq]
    simp [graft, Store.addObject, Graft.rename]

theorem addFunction (f : Function) :
    (s'.addFunction (f.rename g.rename)).1 = g.rename (s.addFunction f).1 ∧
    Grafted g (s.addFunction f).2 (s'.addFunction (f.rename g.rename)).2 := by
  refine ⟨?_, ?_, h.inside, h.kept⟩
  · simp [Store.addFunction, h.functions_eq, Graft.rename, shift]
  · change ((s'.withdraw g.frame g.names).addFunction (f.rename g.rename)).2 = _
    rw [h.eq]
    simp [graft, Store.addFunction, Graft.rename]

end Grafted

end Store
end Scriptlet
