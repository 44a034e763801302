import RouteLens.Regex.Matcher
import RouteLens.Regex.Reader

/-!
# Lists of patterns

Patterns from a configuration.  A pattern that cannot be read is left out; which ones were left out
is known, for the log.
-/

namespace RouteLens

variable {edition : Nat} [CharacterNames edition]

/-- A pattern text that could not be read. -/
structure RefusedPattern where
  text : String
  reason : String

/-- The patterns of a list that could be read, and those that could not. -/
structure Patterns where
  usable : List (String × Regex)
  refused : List RefusedPattern

namespace Patterns

/-- Reads every pattern of a list. -/
def read (o : RegexOptions) : List String → Patterns
  | [] => ⟨[], []⟩
  | s :: ss =>
    let rest := read o ss
    match Regex.ofText o s with
    | .ok r => { rest with usable := (s, r) :: rest.usable }
    | .error f => { rest with refused := ⟨s, f.message s⟩ :: rest.refused }

/-- Whether some pattern is found in a text. -/
def search (ps : Patterns) (s : String) : Bool :=
  ps.usable.any fun p => p.2.search s

end Patterns

end RouteLens
