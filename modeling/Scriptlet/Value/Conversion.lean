import Scriptlet.Fault
/-!
Values where a certain type is wanted. A value of another type is a fault, reported at the place
that wants it.
-/
namespace Scriptlet.Value

/-- The fault of a value that is not of the wanted type. -/
def mismatch (v : Value) (expected : Wanted) (p : Position) : Fault :=
  .raised (.typeMismatch expected v.type) p

def toInteger (v : Value) (p : Position) : Except Fault Int64 :=
  match v with
  | integer n => .ok n
  | _ => .error (v.mismatch (.only .integer) p)

def toFunction (v : Value) (p : Position) : Except Fault FunctionRef :=
  match v with
  | function ref => .ok ref
  | _ => .error (v.mismatch (.only .function) p)

def toArray (v : Value) (p : Position) : Except Fault ArrayRef :=
  match v with
  | array ref => .ok ref
  | _ => .error (v.mismatch (.only .array) p)

def toObject (v : Value) (p : Position) : Except Fault ObjectRef :=
  match v with
  | object ref => .ok ref
  | _ => .error (v.mismatch (.only .object) p)

end Scriptlet.Value
