import Scriptlet.Position
import Scriptlet.Store
/-!
The state of an evaluation: the store, the number of calls under way, the text written so far and
the events that a listener is told about.
-/
namespace Scriptlet

inductive Event where
  /-- A source text was parsed. -/
  | parsed (path : String)
  /-- An assignment made a new variable. -/
  | declared (name : String) (mutable : Bool) (position : Position)
  /-- A function is invoked, as the call number `depth` of those under way. -/
  | invoked (params depth : Nat) (position : Position)
  /-- A program ended with a value. -/
  | evaluated (path : String) (result : ValueType)
deriving DecidableEq

namespace Event

def text : Event → String
  | parsed path => "DEBUG parsed program path=" ++ path
  | declared name mutable position =>
    "TRACE declaring variable name=" ++ name ++ " mutable=" ++ toString mutable ++
      " position=" ++ position.text
  | invoked params depth position =>
    "DEBUG invoking function params=" ++ toString params ++ " depth=" ++ toString depth ++
      " position=" ++ position.text
  | evaluated path result =>
    "DEBUG evaluated program path=" ++ path ++ " result=" ++ result.name

end Event

/-- What an evaluation changes. -/
structure State where
  store : Store := {}
  /-- The number of calls under way. -/
  depth : Nat := 0
  output : String := ""
  events : Array Event := #[]

namespace State

def emit (s : State) (e : Event) : State :=
  { s with events := s.events.push e }

end State

inductive Sink where
  | ready
  /-- Every text is refused. -/
  | closed (reason : String)
  /-- In use elsewhere. -/
  | busy

/-- What stays fixed during an evaluation. -/
structure Settings where
  /-- The number of calls that may be under way at once. -/
  maxDepth : Nat := 512
  sink : Sink := .ready
  /-- An array that is in use elsewhere. -/
  held : Option ArrayRef := none

end Scriptlet
