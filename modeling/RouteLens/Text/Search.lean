/-!
# Searching texts

Beginnings, ends and parts of texts, and texts cut to a length.  Lengths count characters.
-/

namespace RouteLens.Text

/-- Whether a list stands somewhere inside another. -/
def isInfix (part : List Char) : List Char → Bool
  | [] => part.isEmpty
  | c :: cs => part.isPrefixOf (c :: cs) || isInfix part cs

/-- Whether a text starts with another. -/
def startsWith (s part : String) : Bool :=
  part.toList.isPrefixOf s.toList

/-- Whether a text ends with another. -/
def endsWith (s part : String) : Bool :=
  part.toList.isSuffixOf s.toList

/-- Whether a text stands somewhere inside another. -/
def holds (s part : String) : Bool :=
  isInfix part.toList s.toList

/-- The number of characters that a cut at `n` leaves of `length` ones; a negative cut counts from
the end. -/
def cutLength (length : Nat) (n : Int) : Nat :=
  if n < 0 then (length + n).toNat else n.toNat

/-- The first characters of a text; an empty text has no cut. -/
def truncate (s : String) (n : Int) : Option String :=
  if s.isEmpty then none
  else some (String.ofList (s.toList.take (cutLength s.length n)))

/-- The parts of a list between the occurrences of a separator. -/
def splitList (sep : Char) : List Char → List (List Char)
  | [] => [[]]
  | c :: cs =>
    if c == sep then [] :: splitList sep cs
    else
      match splitList sep cs with
      | [] => [[c]]
      | p :: ps => (c :: p) :: ps

/-- The parts of a text between the occurrences of a separator. -/
def split (sep : Char) (s : String) : List String :=
  (splitList sep s.toList).map String.ofList

/-- Texts with a separator between them. -/
def joinWith (sep : String) : List String → String
  | [] => ""
  | [s] => s
  | s :: ss => s ++ sep ++ joinWith sep ss

end RouteLens.Text
