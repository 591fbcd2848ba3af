import Scriptlet.Store
import Scriptlet.Syntax.Outline
/-!
Values unfolded into trees. Shared arrays and objects are written out wherever they occur; one that
lies inside itself is cut off there, so that every value has a finite view. Display texts and
outlines are read off the view.
-/
namespace Scriptlet

/-- A value with its contents. -/
inductive View where
  | undefined
  | integer (n : Int64)
  | bool (b : Bool)
  | string (s : String)
  | array (items : List View)
  | object (properties : List (String × View))
  | function (f : Function)
  /-- An array inside itself. -/
  | cutArray
  /-- An object inside itself. -/
  | cutObject

namespace Store

/-- The view of a value that lies inside the given arrays and objects, unfolded to at most the
given depth. -/
def viewWithin (s : Store) : Nat → List Value → Value → View
  | _, _, .undefined => .undefined
  | _, _, .integer n => .integer n
  | _, _, .bool b => .bool b
  | _, _, .string t => .string t
  | _, _, .function ref => .function (s.function ref)
  | 0, _, .array _ => .cutArray
  | 0, _, .object _ => .cutObject
  | n + 1, path, .array ref =>
    if path.contains (.array ref) then .cutArray
    else .array ((s.array ref).toList.map fun v => viewWithin s n (.array ref :: path) v)
  | n + 1, path, .object ref =>
    if path.contains (.object ref) then .cutObject
    else
      .object ((s.object ref).entries.map fun (name, v) =>
        (name, viewWithin s n (.object ref :: path) v))

/-- The view of a value. The arrays and objects around a place of the view are different ones, so
their number bounds the depth. -/
def view (s : Store) (v : Value) : View :=
  s.viewWithin (s.arrays.size + s.objects.size + 1) [] v

end Store

namespace View

mutual

def display : View → String
  | .undefined => "undefined"
  | .integer n => toString n.toInt
  | .bool b => toString b
  | .string s => s
  | .array items => "[" ++ String.intercalate ", " (displayItems items) ++ "]"
  | .object properties =>
    "\x7b" ++ String.intercalate ", " (displayProperties properties) ++ "\x7d"
  | .function _ => "[function]"
  | .cutArray => "[...]"
  | .cutObject => "\x7b...\x7d"

def displayItems : List View → List String
  | [] => []
  | item :: items => item.display :: displayItems items

def displayProperties : List (String × View) → List String
  | [] => []
  | (name, value) :: properties =>
    (name ++ ": " ++ value.display) :: displayProperties properties

end

end View

/-- The outline of what a function does; of the values that it was taken from, only the type of the
latest is shown. -/
def Function.outline (f : Function) : Outline :=
  let body :=
    match f.receivers, f.code with
    | receiver :: _, _ =>
      .record "Bound" [("receiver", .atom (Text.quoted receiver.type.name))] true
    | [], .closure _ body => .record "Closure" [("body", body.outline)] true
    | [], .builtin _ => .atom "Native"
  .record "Function" [("params", .list (f.params.map Parameter.outline)), ("body", body)] false

namespace View

mutual

def outline : View → Outline
  | .undefined => .atom "Null"
  | .integer n => .tuple "Integer" [.atom (toString n.toInt)]
  | .bool b => .tuple "Bool" [.atom (toString b)]
  | .string s => .tuple "String" [.atom (Text.quoted s)]
  | .array items =>
    .tuple "Array" [.record "RefCell" [("value", .list (outlineItems items))] false]
  | .object properties =>
    .tuple "Object" [.record "RefCell" [("value", .map (outlineProperties properties))] false]
  | .function f => .tuple "Function" [f.outline]
  | .cutArray => .tuple "Array" [.atom ".."]
  | .cutObject => .tuple "Object" [.atom ".."]

def outlineItems : List View → List Outline
  | [] => []
  | item :: items => item.outline :: outlineItems items

def outlineProperties : List (String × View) → List (Outline × Outline)
  | [] => []
  | (name, value) :: properties =>
    (.atom (Text.quoted name), value.outline) :: outlineProperties properties

end

end View

namespace Store

def display (s : Store) (v : Value) : String :=
  (s.view v).display

/-- What a frame holds: its names in ascending order, the number of frames around it, and whether
an object is associated with it. -/
def outlineFrame (s : Store) (ref : FrameRef) : Outline :=
  let frame := s.frame ref
  let names := frame.bindings.names.mergeSort fun a b => a ≤ b
  .record "Environment" [
    ("names", .list (names.map fun name => .atom (Text.quoted name))),
    ("outers", .atom (toString frame.outers.length)),
    ("has_object", .atom (toString frame.object.isSome))] false

end Store
end Scriptlet
