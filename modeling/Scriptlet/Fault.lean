import Scriptlet.Position
import Scriptlet.Value
/-!
Why an evaluation stops. Faults of the program carry the place that they are reported at; the
wording is given by `Fault.message` alone.
-/
namespace Scriptlet

/-- The types that an operation takes. -/
inductive Wanted where
  | only (type : ValueType)
  /-- The types whose values have an order. -/
  | orderable
deriving DecidableEq

/-- What a program does wrong. -/
inductive Fault.Cause where
  | undefinedVariable (name : String)
  | immutableBinding (name : String)
  | typeMismatch (expected : Wanted) (found : ValueType)
  | missingArguments (expected found : Nat)
  | divisionByZero
  | overflow
  | literalTooLarge (digits : String)
  | unknownProperty (name : String) (receiver : ValueType)
  | assertionFailed
  | callDepthExceeded (limit : Nat)
deriving DecidableEq

/-- What the surroundings of a program do wrong. -/
inductive Fault.Misuse where
  /-- A frame says that it was called from a negative line or column. -/
  | negativeCoordinate (name : String)
  /-- The output is in use elsewhere. -/
  | busyOutput
  /-- The array is in use elsewhere. -/
  | busyArray
deriving DecidableEq

/-- Why an evaluation stops. -/
inductive Fault where
  | raised (cause : Fault.Cause) (position : Position)
  /-- The output did not take a text. -/
  | output (reason : String)
  | internal (misuse : Fault.Misuse)
deriving DecidableEq

namespace Wanted

def text : Wanted → String
  | only type => type.name
  | orderable => "integer, string or boolean"

end Wanted

namespace Fault

def Misuse.message : Misuse → String
  | negativeCoordinate name => name ++ " is negative"
  | busyOutput => "output is already borrowed"
  | busyArray => "array is already borrowed"

/-- The wording of a cause, with the place as it is written. -/
def Cause.message (place : String) : Cause → String
  | undefinedVariable name => "undefined variable '" ++ name ++ "' at " ++ place
  | immutableBinding name => "cannot assign to immutable variable '" ++ name ++ "' at " ++ place
  | typeMismatch expected found =>
    "type error at " ++ place ++ ": expected " ++ expected.text ++ ", found " ++ found.name
  | missingArguments expected found =>
    "function expects " ++ toString expected ++ " argument(s) but " ++ toString found ++
      " were given at " ++ place
  | divisionByZero => "division by zero at " ++ place
  | overflow => "integer overflow at " ++ place
  | literalTooLarge digits => "number literal '" ++ digits ++ "' is too large at " ++ place
  | unknownProperty name receiver =>
    "unknown property '" ++ name ++ "' on " ++ receiver.name ++ " at " ++ place
  | assertionFailed => "assertion failed at " ++ place
  | callDepthExceeded limit =>
    "maximum call depth of " ++ toString limit ++ " exceeded at " ++ place

def message : Fault → String
  | raised cause position => cause.message position.text
  | output reason => "output error: " ++ reason
  | internal misuse => "internal error: " ++ misuse.message

end Fault

end Scriptlet
