import Scriptlet.Store
/-!
Names in scope. A name belongs to the first place that has it: the frame's own variables, then the
properties of its associated object, then the frames around it, each searched in full before the
next. Reading looks for a value and assigning for a place to write to.
-/
namespace Scriptlet

/-- The place that a name in scope belongs to. -/
inductive Owner where
  /-- A variable of a frame. -/
  | binding (frame : FrameRef)
  /-- A property of an object. -/
  | property (object : ObjectRef)
deriving DecidableEq

inductive AssignError where
  | undefined
  | immutable
deriving DecidableEq

namespace Store

/-- The most frames that a search can go through one inside the other: frames around one another are
different frames, and a reference to none ends the search. -/
def searchDepth (s : Store) : Nat :=
  s.frames.size + 1

/-- The value of a name as a frame sees it, looking through at most the given number of frames one
around the other. -/
def getWithin (s : Store) (name : String) : Nat → FrameRef → Option Value
  | 0, _ => none
  | n + 1, ref =>
    let frame := s.frame ref
    match frame.bindings.get? name with
    | some b => some b.value
    | none =>
      match frame.object.bind fun object => (s.object object).get? name with
      | some v => some v
      | none => frame.outers.findSome? fun outer => getWithin s name n outer

def get? (s : Store) (ref : FrameRef) (name : String) : Option Value :=
  s.getWithin name s.searchDepth ref

def has (s : Store) (ref : FrameRef) (name : String) : Bool :=
  (s.get? ref name).isSome

/-- The first result that is more than "undefined here". -/
def firstDefined (search : FrameRef → Except AssignError Owner) :
    List FrameRef → Except AssignError Owner
  | [] => .error .undefined
  | ref :: refs =>
    match search ref with
    | .error .undefined => firstDefined search refs
    | result => result

/-- The owner that an assignment to a name writes to, looking through at most the given number of
frames one around the other. An immutable variable ends the search. -/
def targetWithin (s : Store) (name : String) : Nat → FrameRef → Except AssignError Owner
  | 0, _ => .error .undefined
  | n + 1, ref =>
    let frame := s.frame ref
    match frame.bindings.get? name with
    | some b => if b.mutable then .ok (.binding ref) else .error .immutable
    | none =>
      match frame.object.filter fun object => (s.object object).contains name with
      | some object => .ok (.property object)
      | none => firstDefined (fun outer => targetWithin s name n outer) frame.outers

def target (s : Store) (ref : FrameRef) (name : String) : Except AssignError Owner :=
  s.targetWithin name s.searchDepth ref

/-- Writes a value to a name at an owner that an assignment may write to. -/
def write (s : Store) (name : String) (v : Value) : Owner → Store
  | .binding frame => s.bind frame name ⟨v, true⟩
  | .property object => s.setProperty object name v

end Store
end Scriptlet
