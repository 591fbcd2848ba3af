/-!
Outlines: labelled trees that show how a datum is built. An outline is written either on one line
or with one field per line, indented by its depth.
-/
namespace Scriptlet

/-- The make-up of a datum. -/
inductive Outline where
  /-- A word, number or quoted text. -/
  | atom (text : String)
  /-- A label with unnamed fields; the label may be empty. -/
  | tuple (label : String) (fields : List Outline)
  /-- A label with named fields; `more` tells that some fields are left out. -/
  | record (label : String) (fields : List (String × Outline)) (more : Bool)
  | list (items : List Outline)
  | map (entries : List (Outline × Outline))

namespace Outline

mutual

def compact : Outline → String
  | .atom text => text
  | .tuple label [] => label
  | .tuple label fields => label ++ "(" ++ String.intercalate ", " (compactItems fields) ++ ")"
  | .record label [] false => label
  | .record label fields more =>
    label ++ " \x7b " ++
      String.intercalate ", " (compactFields fields ++ if more then [".."] else []) ++ " \x7d"
  | .list items => "[" ++ String.intercalate ", " (compactItems items) ++ "]"
  | .map entries => "\x7b" ++ String.intercalate ", " (compactEntries entries) ++ "\x7d"

def compactItems : List Outline → List String
  | [] => []
  | item :: items => item.compact :: compactItems items

def compactFields : List (String × Outline) → List String
  | [] => []
  | (name, value) :: fields => (name ++ ": " ++ value.compact) :: compactFields fields

def compactEntries : List (Outline × Outline) → List String
  | [] => []
  | (key, value) :: entries => (key.compact ++ ": " ++ value.compact) :: compactEntries entries

end

def margin (depth : Nat) : String :=
  String.ofList ('\n' :: List.replicate (4 * depth) ' ')

/-- Entries between two brackets, each on a line of its own and followed by `stop`. -/
def block (depth : Nat) (left right stop : String) (entries : List String) : String :=
  left ++ String.join (entries.map fun entry => margin (depth + 1) ++ entry ++ stop) ++
    margin depth ++ right

mutual

/-- The outline with one field per line, where the line it starts on is indented by `depth`. -/
def indented (depth : Nat) : Outline → String
  | .atom text => text
  | .tuple label [] => label
  | .tuple label fields => block depth (label ++ "(") ")" "," (indentedItems (depth + 1) fields)
  | .record label [] more => if more then label ++ " \x7b .. \x7d" else label
  | .record label fields more =>
    block depth (label ++ " \x7b")
      (if more then "    .." ++ margin depth ++ "\x7d" else "\x7d") ","
      (indentedFields (depth + 1) fields)
  | .list [] => "[]"
  | .list items => block depth "[" "]" "," (indentedItems (depth + 1) items)
  | .map [] => "\x7b\x7d"
  | .map entries => block depth "\x7b" "\x7d" "," (indentedEntries (depth + 1) entries)

def indentedItems (depth : Nat) : List Outline → List String
  | [] => []
  | item :: items => item.indented depth :: indentedItems depth items

def indentedFields (depth : Nat) : List (String × Outline) → List String
  | [] => []
  | (name, value) :: fields =>
    (name ++ ": " ++ value.indented depth) :: indentedFields depth fields

def indentedEntries (depth : Nat) : List (Outline × Outline) → List String
  | [] => []
  | (key, value) :: entries =>
    (key.indented depth ++ ": " ++ value.indented depth) :: indentedEntries depth entries

end

end Outline
end Scriptlet
