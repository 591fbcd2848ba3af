import Scriptlet.Eval.Call
/-!
# The frame of a call

What the code of a function finds in the frame that a call makes for it: the place of the call, its
parameters and, if it was taken from values, the first of them. Parameters that have the name of one
of these do not hide it.
-/
namespace Scriptlet

namespace Frame

/-- The place of a call is bound last, so that no parameter takes its names. -/
theorem bindings_ofCall (callee : Value) (params : List Parameter) (values : List Value)
    (line column : Int64) :
    (ofCall callee params values line column).bindings =
      ((Table.ofList ((selfName, ⟨callee, false⟩) ::
        params.zipWith (fun param v => (param.name, ⟨v, param.mutable⟩)) values)).insert
          lineName ⟨.integer line, false⟩).insert columnName ⟨.integer column, false⟩ := by
  rw [← Table.ofList_append, ← Table.ofList_append, List.append_assoc]
  rfl

theorem value_ofCall {callee : Value} {params : List Parameter} {values : List Value}
    {line column : Int64} {name : String} {b : Binding}
    (h : (ofCall callee params values line column).bindings.get? name = some b) :
    b.value = callee ∨ b.value ∈ values ∨ ∃ n, b.value = .integer n := by
  rw [bindings_ofCall, Table.get?_insert, Table.get?_insert] at h
  split at h
  · cases h
    exact .inr (.inr ⟨column, rfl⟩)
  · split at h
    · cases h
      exact .inr (.inr ⟨line, rfl⟩)
    · rcases List.mem_cons.1 (Table.mem_of_get?_ofList h) with heq | hmem
      · cases heq
        exact .inl rfl
      · obtain ⟨i, hi, heq⟩ := List.mem_iff_getElem.1 hmem
        rw [List.getElem_zipWith] at heq
        cases heq
        exact .inr (.inl (List.getElem_mem _))

section Arguments

variable {callee : Value} {params : List Parameter} {values : List Value} {line column : Int64}
  {name : String}

theorem map_fst_arguments (hlength : values.length = params.length) :
    (params.zipWith (fun param v => (param.name, (⟨v, param.mutable⟩ : Binding))) values).map
      (·.1) = params.map (·.name) := by
  apply List.ext_getElem <;> simp [hlength]

theorem contains_ofCall (hlength : values.length = params.length) :
    (ofCall callee params values line column).bindings.contains name ↔
      name ∈ [selfName, lineName, columnName] ∨ name ∈ params.map (·.name) := by
  rw [bindings_ofCall, Table.contains_insert, Table.contains_insert, Table.contains_ofList,
    List.map_cons, map_fst_arguments hlength]
  grind

end Arguments

def receive (frame : Frame) (receiver : Value) : Frame :=
  let bindings := frame.bindings.insert thisName ⟨receiver, false⟩
  match receiver with
  | .object ref => { frame with bindings, object := some ref }
  | _ => { frame with bindings }

def receiveAll (frame : Frame) (receivers : List Value) : Frame :=
  receivers.foldl receive frame

variable {frame : Frame} {receivers : List Value} {name : String}

theorem bindings_receive (frame : Frame) (receiver : Value) :
    (frame.receive receiver).bindings = frame.bindings.insert thisName ⟨receiver, false⟩ := by
  cases receiver <;> rfl

theorem get?_receiveAll_of_ne (h : name ≠ thisName) :
    (frame.receiveAll receivers).bindings.get? name = frame.bindings.get? name := by
  induction receivers generalizing frame with
  | nil => rfl
  | cons receiver receivers ih =>
    rw [receiveAll, List.foldl_cons, ← receiveAll, ih, bindings_receive, Table.get?_insert,
      if_neg h.symm]

/-- The value that a function was taken from first is the receiver in the end. -/
theorem get?_receiveAll_this {receiver : Value} (h : receivers.getLast? = some receiver) :
    (frame.receiveAll receivers).bindings.get? thisName = some ⟨receiver, false⟩ := by
  obtain ⟨front, rfl⟩ := List.getLast?_eq_some_iff.1 h
  rw [receiveAll, List.foldl_append, List.foldl_cons, List.foldl_nil, bindings_receive,
    Table.get?_insert, if_pos rfl]

theorem get?_line_receiveAll (callee : Value) (params : List Parameter) (values : List Value)
    (line column : Int64) (receivers : List Value) :
    ((ofCall callee params values line column).receiveAll receivers).bindings.get? lineName =
      some ⟨.integer line, false⟩ := by
  rw [get?_receiveAll_of_ne (by decide), bindings_ofCall, Table.get?_insert, if_neg (by decide),
    Table.get?_insert, if_pos rfl]

theorem get?_column_receiveAll (callee : Value) (params : List Parameter) (values : List Value)
    (line column : Int64) (receivers : List Value) :
    ((ofCall callee params values line column).receiveAll receivers).bindings.get? columnName =
      some ⟨.integer column, false⟩ := by
  rw [get?_receiveAll_of_ne (by decide), bindings_ofCall, Table.get?_insert, if_pos rfl]

theorem contains_receiveAll : (frame.receiveAll receivers).bindings.contains name ↔
    frame.bindings.contains name ∨ (name = thisName ∧ receivers ≠ []) := by
  induction receivers generalizing frame with
  | nil => simp [receiveAll]
  | cons receiver receivers ih =>
    rw [receiveAll, List.foldl_cons, ← receiveAll, ih, bindings_receive, Table.contains_insert]
    grind

end Frame

namespace Store

variable {s : Store} {ref : FrameRef}

theorem frame_addFrame_self (s : Store) (frame : Frame) :
    (s.addFrame frame).2.frame (s.addFrame frame).1 = frame := by
  rw [frame_addFrame, if_pos rfl]

theorem lt_size_addFrame (s : Store) (frame : Frame) :
    (s.addFrame frame).1.index < (s.addFrame frame).2.frames.size := by
  simp [addFrame]

theorem size_frames_receive (s : Store) (ref : FrameRef) (receiver : Value) :
    (s.receive ref receiver).frames.size = s.frames.size := by
  cases receiver <;> simp [receive, associate, bind, modifyFrame]

theorem receiveAll_eq (s : Store) (frame : FrameRef) (receivers : List Value) :
    s.receiveAll frame receivers = { s with frames := (s.receiveAll frame receivers).frames } := by
  induction receivers generalizing s with
  | nil => rfl
  | cons receiver receivers ih =>
    rw [receiveAll, List.foldl_cons, ← receiveAll, ih]
    cases receiver <;> rfl

theorem functions_receiveAll (s : Store) (frame : FrameRef) (receivers : List Value) :
    (s.receiveAll frame receivers).functions = s.functions := by
  rw [receiveAll_eq]

theorem frame_receive (h : ref.index < s.frames.size) (receiver : Value) :
    (s.receive ref receiver).frame ref = (s.frame ref).receive receiver := by
  have hbind : (s.bind ref Frame.thisName ⟨receiver, false⟩).frame ref =
      { s.frame ref with
        bindings := (s.frame ref).bindings.insert Frame.thisName ⟨receiver, false⟩ } := by
    rw [bind, frame_modifyFrame s ref ref _ h, if_pos rfl]
  cases receiver with
  | object object =>
    have hlt : ref.index < (s.bind ref Frame.thisName ⟨.object object, false⟩).frames.size := by
      simpa [bind, modifyFrame] using h
    simp only [receive, Frame.receive]
    rw [associate, frame_modifyFrame _ ref ref _ hlt, if_pos rfl, hbind]
  | _ => exact hbind

theorem frame_receiveAll (h : ref.index < s.frames.size) (receivers : List Value) :
    (s.receiveAll ref receivers).frame ref = (s.frame ref).receiveAll receivers := by
  induction receivers generalizing s with
  | nil => rfl
  | cons receiver receivers ih =>
    have hlt : ref.index < (s.receive ref receiver).frames.size := by
      rwa [size_frames_receive]
    rw [receiveAll, List.foldl_cons, ← receiveAll, ih hlt, frame_receive h, Frame.receiveAll,
      Frame.receiveAll, List.foldl_cons]

end Store

/-- The frames that the language enters a function with. -/
inductive IsCallFrame (f : Function) : Frame → Prop
  | intro (callee : Value) (values : List Value) (line column : Int64) :
      values.length = f.params.length → 0 ≤ line.toInt → 0 ≤ column.toInt →
      IsCallFrame f ((Frame.ofCall callee f.params values line column).receiveAll f.receivers)

namespace IsCallFrame

variable {f : Function} {frame : Frame}

theorem coordinates (h : IsCallFrame f frame) :
    ∃ line column : Int64, 0 ≤ line.toInt ∧ 0 ≤ column.toInt ∧
      frame.bindings.get? Frame.lineName = some ⟨.integer line, false⟩ ∧
      frame.bindings.get? Frame.columnName = some ⟨.integer column, false⟩ := by
  obtain ⟨callee, values, line, column, -, hline, hcolumn⟩ := h
  exact ⟨line, column, hline, hcolumn, Frame.get?_line_receiveAll ..,
    Frame.get?_column_receiveAll ..⟩

theorem parameter (h : IsCallFrame f frame) {param : Parameter} (hparam : param ∈ f.params) :
    frame.bindings.contains param.name := by
  obtain ⟨callee, values, line, column, hlength, -, -⟩ := h
  rw [Frame.contains_receiveAll, Frame.contains_ofCall hlength]
  exact .inl (.inr (List.mem_map_of_mem hparam))

theorem receiver (h : IsCallFrame f frame) {v : Value} (hv : f.receivers.getLast? = some v) :
    frame.bindings.get? Frame.thisName = some ⟨v, false⟩ := by
  obtain ⟨callee, values, line, column, -, -, -⟩ := h
  exact Frame.get?_receiveAll_this hv

end IsCallFrame

end Scriptlet
