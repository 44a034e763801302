import RouteLens.Config.Reading
import RouteLens.Regex.Patterns
import RouteLens.Source.Declaration

/-!
# Transactions

Whether a method opens a transaction, by the text of its decorators and of what it calls.
-/

namespace RouteLens

variable {edition : Nat} [CharacterNames edition]

/-- The patterns that a configuration sets for transactions. -/
def transactionPatterns (c : Config) : Except Fault Patterns := do
  let es ← match c.section? "transactions" with
    | none => pure Config.transactionDefaults
    | some (.dict es) => pure es
    | some _ => throw Fault.noSuchPart
  return Patterns.read {} (← es.textsOr "patterns" [])

namespace MethodDecl

/-- The dotted texts of what a method calls, in document order. -/
def calleeTexts (m : MethodDecl) : List String :=
  m.occurrences.filterMap fun o =>
    match o.node with
    | .expr (.node _ (.call func _ _)) => func.dottedName?
    | _ => none

/-- Whether a method opens a transaction. -/
def usesTransaction (m : MethodDecl) (ps : Patterns) : Bool :=
  (m.decoratorTexts ++ m.calleeTexts).any ps.search

end MethodDecl

end RouteLens
