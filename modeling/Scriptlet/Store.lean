import Scriptlet.Syntax.Node
import Scriptlet.Table
import Scriptlet.Value
/-!
What references refer to: frames of variables, arrays, objects and functions. A store only grows;
a reference, once given out, stays good. Main statements: what is read after a write, for each of
the four kinds.
-/
namespace Scriptlet

structure Binding where
  value : Value
  mutable : Bool
deriving DecidableEq

/-- The variables of a scope, the scopes around it, and the object whose properties are in scope
too. -/
structure Frame where
  bindings : Table Binding := .empty
  outers : List FrameRef := []
  object : Option ObjectRef := none

namespace Frame

/-- The variable that holds the function being called. -/
def selfName : String := "self"

/-- The variable that holds the value that a function was taken from. -/
def thisName : String := "this"

def lineName : String := "__LINE__"

def columnName : String := "__COLUMN__"

end Frame

/-- The functions that the language provides. -/
inductive Builtin where
  | puts
  | assert
  | push
deriving DecidableEq

/-- What a function does when it is invoked. -/
inductive Code where
  /-- A body of the program, with the frame that it was written in. -/
  | closure (frame : FrameRef) (body : Node)
  | builtin (b : Builtin)

/-- A function, with the values that it was taken from as a property, the latest first. -/
structure Function where
  params : List Parameter
  receivers : List Value := []
  code : Code

/-- The function that does nothing. -/
instance : Inhabited Function :=
  ⟨{ params := [], code := .closure ⟨0⟩ ⟨.statements [], .nowhere⟩ }⟩

namespace Builtin

/-- The name of the parameter that every provided function has. -/
def parameterName : Builtin → String
  | puts => "value"
  | assert => "condition"
  | push => "value"

def function (b : Builtin) : Function where
  params := [⟨b.parameterName, false⟩]
  code := .builtin b

end Builtin

/-- What references refer to; a reference is an index into one of the arrays. -/
structure Store where
  frames : Array Frame := #[]
  arrays : Array (Array Value) := #[]
  objects : Array (Table Value) := #[]
  functions : Array Function := #[]

namespace Store

/-- A frame; a reference to none gives an empty one. -/
def frame (s : Store) (ref : FrameRef) : Frame :=
  s.frames.getD ref.index {}

def array (s : Store) (ref : ArrayRef) : Array Value :=
  s.arrays.getD ref.index #[]

def object (s : Store) (ref : ObjectRef) : Table Value :=
  s.objects.getD ref.index .empty

/-- A function; a reference to none gives the one that does nothing. -/
def function (s : Store) (ref : FunctionRef) : Function :=
  s.functions.getD ref.index default

def addFrame (s : Store) (frame : Frame) : FrameRef × Store :=
  (⟨s.frames.size⟩, { s with frames := s.frames.push frame })

def addArray (s : Store) (items : Array Value) : ArrayRef × Store :=
  (⟨s.arrays.size⟩, { s with arrays := s.arrays.push items })

def addObject (s : Store) (properties : Table Value) : ObjectRef × Store :=
  (⟨s.objects.size⟩, { s with objects := s.objects.push properties })

def addFunction (s : Store) (f : Function) : FunctionRef × Store :=
  (⟨s.functions.size⟩, { s with functions := s.functions.push f })

def modifyFrame (s : Store) (ref : FrameRef) (change : Frame → Frame) : Store :=
  { s with frames := s.frames.modify ref.index change }

def pushItem (s : Store) (ref : ArrayRef) (v : Value) : Store :=
  { s with arrays := s.arrays.modify ref.index (·.push v) }

def setProperty (s : Store) (ref : ObjectRef) (name : String) (v : Value) : Store :=
  { s with objects := s.objects.modify ref.index (·.insert name v) }

/-- Binds a name in a frame, whether or not it is bound there already. -/
def bind (s : Store) (ref : FrameRef) (name : String) (b : Binding) : Store :=
  s.modifyFrame ref fun frame => { frame with bindings := frame.bindings.insert name b }

/-- Puts a frame after the others that are around `ref`. -/
def appendOuter (s : Store) (ref outer : FrameRef) : Store :=
  s.modifyFrame ref fun frame => { frame with outers := frame.outers ++ [outer] }

/-- Brings the properties of an object into the scope of a frame. -/
def associate (s : Store) (ref : FrameRef) (object : ObjectRef) : Store :=
  s.modifyFrame ref fun frame => { frame with object := some object }

private theorem getD_modify {α : Type} (xs : Array α) (i j : Nat) (change : α → α) (d : α)
    (h : i < xs.size) :
    (xs.modify i change).getD j d = if i = j then change (xs.getD j d) else xs.getD j d := by
  by_cases hij : i = j
  · subst hij
    simp [h, Array.getElem_modify]
  · simp [Array.getD_eq_getD_getElem?, Array.getElem?_modify, hij]

private theorem getD_push {α : Type} (xs : Array α) (j : Nat) (x d : α) :
    (xs.push x).getD j d = if j = xs.size then x else xs.getD j d := by
  simp only [Array.getD_eq_getD_getElem?, Array.getElem?_push]
  split <;> rfl

theorem frame_modifyFrame (s : Store) (ref other : FrameRef) (change : Frame → Frame)
    (h : ref.index < s.frames.size) :
    (s.modifyFrame ref change).frame other =
      if ref = other then change (s.frame other) else s.frame other := by
  simp only [FrameRef.ext_iff]
  exact getD_modify s.frames ref.index other.index change {} h

theorem frame_modifyFrame_of_ne (s : Store) {ref other : FrameRef} (change : Frame → Frame)
    (h : other ≠ ref) : (s.modifyFrame ref change).frame other = s.frame other := by
  have hindex : ref.index ≠ other.index := fun hi => h (FrameRef.ext hi.symm)
  simp [frame, modifyFrame, Array.getD_eq_getD_getElem?, Array.getElem?_modify, hindex]

theorem modifyFrame_eq_self (s : Store) (ref : FrameRef) (change : Frame → Frame)
    (h : ¬ ref.index < s.frames.size) : s.modifyFrame ref change = s := by
  simp [modifyFrame, Array.modify, Array.modifyM, h, pure, Id.run]

theorem outers_bind (s : Store) (ref other : FrameRef) (name : String) (b : Binding) :
    ((s.bind ref name b).frame other).outers = (s.frame other).outers := by
  by_cases h : ref.index < s.frames.size
  · rw [bind, frame_modifyFrame s ref other _ h]
    split <;> rfl
  · rw [bind, modifyFrame_eq_self s ref _ h]

theorem associated_bind (s : Store) (ref other : FrameRef) (name : String) (b : Binding) :
    ((s.bind ref name b).frame other).object = (s.frame other).object := by
  by_cases h : ref.index < s.frames.size
  · rw [bind, frame_modifyFrame s ref other _ h]
    split <;> rfl
  · rw [bind, modifyFrame_eq_self s ref _ h]

theorem get?_bind (s : Store) (ref other : FrameRef) (name n : String) (b : Binding)
    (h : ref.index < s.frames.size) :
    ((s.bind ref name b).frame other).bindings.get? n =
      if ref = other ∧ name = n then some b else (s.frame other).bindings.get? n := by
  rw [bind, frame_modifyFrame s ref other _ h]
  by_cases hr : ref = other
  · simp only [hr, true_and, if_true, Table.get?_insert]
  · simp only [hr, false_and, if_false]

theorem array_pushItem (s : Store) (ref other : ArrayRef) (v : Value)
    (h : ref.index < s.arrays.size) :
    (s.pushItem ref v).array other =
      if ref = other then (s.array other).push v else s.array other := by
  simp only [ArrayRef.ext_iff]
  exact getD_modify s.arrays ref.index other.index (·.push v) #[] h

theorem object_setProperty (s : Store) (ref other : ObjectRef) (name : String) (v : Value)
    (h : ref.index < s.objects.size) :
    (s.setProperty ref name v).object other =
      if ref = other then (s.object other).insert name v else s.object other := by
  simp only [ObjectRef.ext_iff]
  exact getD_modify s.objects ref.index other.index (·.insert name v) .empty h

theorem lt_of_binding {s : Store} {ref : FrameRef} {name : String} {b : Binding}
    (h : (s.frame ref).bindings.get? name = some b) : ref.index < s.frames.size := by
  rw [frame, Array.getD] at h
  split at h
  · assumption
  · cases h

theorem lt_of_mem_array {s : Store} {ref : ArrayRef} {v : Value}
    (h : v ∈ (s.array ref).toList) : ref.index < s.arrays.size := by
  rw [array, Array.getD] at h
  split at h
  · assumption
  · simp at h

theorem lt_of_mem_object {s : Store} {ref : ObjectRef} {e : String × Value}
    (h : e ∈ (s.object ref).entries) : ref.index < s.objects.size := by
  rw [object, Array.getD] at h
  split at h
  · assumption
  · simp [Table.empty] at h

theorem frame_addFrame (s : Store) (frame : Frame) (other : FrameRef) :
    (s.addFrame frame).2.frame other =
      if other = (s.addFrame frame).1 then frame else s.frame other := by
  simp only [FrameRef.ext_iff]
  exact getD_push s.frames other.index frame {}

theorem frame_addFrame_of_lt (s : Store) (frame : Frame) {other : FrameRef}
    (h : other.index < s.frames.size) : (s.addFrame frame).2.frame other = s.frame other := by
  rw [frame_addFrame, if_neg]
  rintro rfl
  exact Nat.lt_irrefl _ h

theorem array_addArray (s : Store) (items : Array Value) (other : ArrayRef) :
    (s.addArray items).2.array other =
      if other = (s.addArray items).1 then items else s.array other := by
  simp only [ArrayRef.ext_iff]
  exact getD_push s.arrays other.index items #[]

theorem object_addObject (s : Store) (properties : Table Value) (other : ObjectRef) :
    (s.addObject properties).2.object other =
      if other = (s.addObject properties).1 then properties else s.object other := by
  simp only [ObjectRef.ext_iff]
  exact getD_push s.objects other.index properties .empty

theorem function_addFunction (s : Store) (f : Function) (other : FunctionRef) :
    (s.addFunction f).2.function other =
      if other = (s.addFunction f).1 then f else s.function other := by
  simp only [FunctionRef.ext_iff]
  exact getD_push s.functions other.index f default

end Store
end Scriptlet
