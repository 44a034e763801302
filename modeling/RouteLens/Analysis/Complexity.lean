import RouteLens.Config.Reading
import RouteLens.Issue
import RouteLens.Source.Declaration

/-!
# Cyclomatic complexity

One plus the number of decision points: branches, loops, `except` clauses, cases, conditional
expressions, comprehension clauses with their filters, and the operators `and` and `or`.
-/

namespace RouteLens

/-- How many decisions a construct adds by itself. -/
def Node.decisions : Node → Nat
  | .stmt (.node _ (.branch ..)) => 1
  | .stmt (.node _ (.forLoop ..)) => 1
  | .stmt (.node _ (.whileLoop ..)) => 1
  | .expr (.node _ (.choice ..)) => 1
  | .expr (.node _ (.bool _ values)) => values.length - 1
  | .handler _ => 1
  | .case _ => 1
  | .clause (.mk _ _ _ filters) => 1 + filters.length
  | _ => 0

/-- The complexity of a run of constructs. -/
def complexityOf (nodes : List Node) : Nat :=
  nodes.foldr (fun n total => n.decisions + total) 1

/-- The complexity of everything inside a construct. -/
def Node.complexity (n : Node) : Nat :=
  complexityOf n.descendants

/-- The complexity of a method. -/
def MethodDecl.complexity (m : MethodDecl) : Nat :=
  complexityOf (m.occurrences.map Occurrence.node)

/-- From which score on a method is reported, and how. -/
structure ComplexityLimits where
  info : Int
  warn : Int

namespace ComplexityLimits

/-- The limits that a configuration sets; an absent limit keeps its default. -/
def ofConfig (c : Config) : Except Fault ComplexityLimits := do
  let section_ ← c.entries "complexity"
  let limit (key : String) (absent : Int) : Except Fault Int :=
    match Value.get? section_ key with
    | some v => v.toInteger
    | none => .ok absent
  return ⟨← limit "info_threshold" 7, ← limit "warn_threshold" 10⟩

/-- What is reported of a method with a score. -/
def issues (l : ComplexityLimits) (className methodName : String) (score : Int) : List Issue :=
  let target := className ++ "." ++ methodName ++ " (" ++ toString score ++ ")"
  if l.warn ≤ score then
    [{ code := "SP101"
       severity := .warn
       message := "High cyclomatic complexity in " ++ target
       hint := some "Split the method into smaller helpers or use early returns." }]
  else if l.info ≤ score then
    [{ code := "SP100"
       severity := .info
       message := "Moderate cyclomatic complexity in " ++ target }]
  else []

end ComplexityLimits

end RouteLens
