import RouteLens.Tree.Position

/-!
# Source segments

The stretch of a source text between two places.
-/

namespace RouteLens

namespace Segment

/-- The characters from a byte offset on. -/
def dropBytes : Nat → List Char → List Char
  | _, [] => []
  | 0, cs => cs
  | n + 1, c :: cs => dropBytes (n + 1 - c.utf8Size) cs

/-- The characters before a byte offset. -/
def takeBytes : Nat → List Char → List Char
  | _, [] => []
  | 0, _ => []
  | n + 1, c :: cs => c :: takeBytes (n + 1 - c.utf8Size) cs

/-- The lines of a text, each with its end. -/
def lines : List Char → List (List Char)
  | [] => []
  | c :: cs =>
    if c == '\n' then [c] :: lines cs
    else
      match lines cs with
      | [] => [[c]]
      | l :: ls => (c :: l) :: ls

/-- The characters of a stretch of a text given by its lines. -/
def between (ls : List (List Char)) (s : Span) : List Char :=
  let first := ls.drop (s.start.line - 1)
  if s.start.line = s.stop.line then
    dropBytes s.start.column (takeBytes s.stop.column (first.headD []))
  else
    let inner := (first.drop 1).take (s.stop.line - s.start.line - 1)
    let last := (ls.drop (s.stop.line - 1)).headD []
    dropBytes s.start.column (first.headD []) ++ inner.flatten ++ takeBytes s.stop.column last

end Segment

/-- The text of a stretch of a source text. -/
def segment (text : String) (s : Span) : String :=
  String.ofList (Segment.between (Segment.lines text.toList) s)

end RouteLens
