import Scriptlet.Position
/-!
Templates: the raw text between double quotes, cut into segments. A segment is a text with its
escapes resolved, or the source of an embedded expression between `$` with a brace and the brace
that closes it.
-/
namespace Scriptlet.Template

inductive Segment where
  /-- A text that is taken as it stands. -/
  | text (content : List Char)
  /-- The source of an expression. -/
  | code (source : List Char)
  /-- An expression whose closing brace is missing. -/
  | unterminated
deriving DecidableEq

def unescape : Char → Char
  | 'n' => '\n'
  | 't' => '\t'
  | c => c

/-- A text segment, unless the text is empty. -/
def textSegment (content : List Char) (start : Position) : List (Segment × Position) :=
  if content.isEmpty then [] else [(.text content, start)]

mutual

/-- Reads text that begins at `p`: the characters up to the next expression, with their escapes
resolved, and the segments from that expression on. -/
def textFrom (p : Position) : List Char → List Char × List (Segment × Position)
  | [] => ([], [])
  | ['\\'] => (['\\'], [])
  | '\\' :: c :: rest =>
    let (text, more) := textFrom ((p.advance '\\').advance c) rest
    (unescape c :: text, more)
  | '$' :: '\x7b' :: rest =>
    let start := (p.advance '$').advance '\x7b'
    match codeFrom 0 false start rest with
    | some (source, more) => ([], (.code source, start) :: more)
    | none => ([], [(.unterminated, p)])
  | c :: rest =>
    let (text, more) := textFrom (p.advance c) rest
    (c :: text, more)

/-- Reads an expression from `p` on, inside which `depth` braces are open, and single quotes if
`quoted` is set: the characters up to the brace that closes it, and the segments after that brace.
Braces between single quotes do not count. -/
def codeFrom (depth : Nat) (quoted : Bool) (p : Position) :
    List Char → Option (List Char × List (Segment × Position))
  | [] => none
  | c :: rest =>
    if c = '\x7d' && !quoted && depth = 0 then
      let start := p.advance c
      let (text, more) := textFrom start rest
      some ([], textSegment text start ++ more)
    else
      let depth :=
        if quoted then depth
        else if c = '\x7b' then depth + 1
        else if c = '\x7d' then depth - 1
        else depth
      let quoted := if c = '\'' then !quoted else quoted
      (codeFrom depth quoted (p.advance c) rest).map fun (source, more) => (c :: source, more)

end

def segments (raw : List Char) (p : Position) : List (Segment × Position) :=
  let (text, more) := textFrom p raw
  textSegment text p ++ more

end Scriptlet.Template
