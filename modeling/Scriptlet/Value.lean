/-!
The values of the language. Integers, booleans and texts are values themselves; arrays, objects and
functions are references to contents that a store keeps, so that copies of a value share them.
-/
namespace Scriptlet

@[ext]
structure ArrayRef where
  index : Nat
deriving DecidableEq

@[ext]
structure ObjectRef where
  index : Nat
deriving DecidableEq

@[ext]
structure FunctionRef where
  index : Nat
deriving DecidableEq

@[ext]
structure FrameRef where
  index : Nat
deriving DecidableEq

inductive Value where
  | undefined
  | integer (n : Int64)
  | bool (b : Bool)
  | string (s : String)
  | array (ref : ArrayRef)
  | object (ref : ObjectRef)
  | function (ref : FunctionRef)
deriving DecidableEq, Inhabited

inductive ValueType where
  | undefined
  | integer
  | bool
  | string
  | array
  | object
  | function
deriving DecidableEq

namespace ValueType

def name : ValueType → String
  | undefined => "undefined"
  | integer => "integer"
  | bool => "boolean"
  | string => "string"
  | array => "array"
  | object => "object"
  | function => "function"

end ValueType

namespace Value

def type : Value → ValueType
  | undefined => .undefined
  | integer _ => .integer
  | bool _ => .bool
  | string _ => .string
  | array _ => .array
  | object _ => .object
  | function _ => .function

/-- Everything counts as true but `undefined` and `false`. -/
def truthy : Value → Bool
  | undefined => false
  | bool b => b
  | _ => true

end Value
end Scriptlet
