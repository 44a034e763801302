/-!
# Line ends

Texts with one way to end a line.
-/

namespace RouteLens

/-- One line-end character for each of the three ways to end a line. -/
def unifyLineEnds : List Char → List Char
  | '\r' :: '\n' :: cs => '\n' :: unifyLineEnds cs
  | '\r' :: cs => '\n' :: unifyLineEnds cs
  | c :: cs => c :: unifyLineEnds cs
  | [] => []

theorem length_unifyLineEnds_le (cs : List Char) : (unifyLineEnds cs).length ≤ cs.length := by
  induction cs using unifyLineEnds.induct <;> simp_all [unifyLineEnds]
  all_goals omega

end RouteLens
