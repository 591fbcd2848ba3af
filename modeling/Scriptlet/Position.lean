/-!
Places in a source text. Lines and columns start at one, and a column counts the bytes that a
character takes in UTF-8. Main statement: walking over two texts in turn is walking over their
concatenation (`Position.after_append`).
-/
namespace Scriptlet

/-- A line and a column of a source text. -/
structure Position where
  line : Nat
  column : Nat
deriving DecidableEq, Inhabited

namespace Position

def start : Position := ⟨1, 1⟩

/-- The place given to what stands in no text. -/
def nowhere : Position := ⟨0, 0⟩

/-- The place just past a character: a line feed opens the next line. -/
def advance (p : Position) (c : Char) : Position :=
  if c = '\n' then ⟨p.line + 1, 1⟩ else ⟨p.line, p.column + c.utf8Size⟩

/-- The place just past a text that starts at `p`. -/
def after (p : Position) (text : List Char) : Position :=
  text.foldl advance p

def text (p : Position) : String :=
  toString p.line ++ ":" ++ toString p.column

@[simp]
theorem after_nil (p : Position) : p.after [] = p := rfl

@[simp]
theorem after_cons (p : Position) (c : Char) (cs : List Char) :
    p.after (c :: cs) = (p.advance c).after cs := rfl

theorem after_append (p : Position) (a b : List Char) :
    p.after (a ++ b) = (p.after a).after b :=
  List.foldl_append

end Position
end Scriptlet
