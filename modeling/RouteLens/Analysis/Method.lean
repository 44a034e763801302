import RouteLens.Analysis.Collaborators
import RouteLens.Analysis.Exceptions
import RouteLens.Analysis.Transactions

/-!
# Facts about a method

What is reported about one method: its signature, the collaborators it calls, the exceptions that
it raises or that its file imports, and whether it opens a transaction.
-/

namespace RouteLens

/-- The facts about one method. -/
structure MethodFacts where
  className : String
  methodName : String
  paramTypes : List String
  returnType : String
  calls : List CallSite
  exceptionHints : List String
  throwsDetected : List String
  usesTransaction : Bool
  isAsync : Bool

/-- The facts about a method, given how exceptions and transactions are recognized. -/
def MethodDecl.facts (m : MethodDecl) (exceptions : ExceptionRules) (transactions : Patterns) :
    MethodFacts where
  className := m.owner.name
  methodName := m.name
  paramTypes := m.paramDecls.map ParamDecl.typeText
  returnType := m.returnText
  calls := m.callSites
  exceptionHints := (exceptions.importedNames m.owner.unit).map fun e => e.2.name
  throwsDetected := exceptions.methodExceptions m
  usesTransaction := m.usesTransaction transactions
  isAsync := m.isAsync

/-- The facts about a method, if its types and decorators can be printed and no rule for exceptions
breaks off on the way to them. -/
def MethodDecl.gatherFacts (m : MethodDecl) (exceptions : ExceptionRules)
    (transactions : Patterns) : Except Fault MethodFacts := do
  Expr.printAll m.signatureTypes
  exceptions.testImports m.owner.unit
  exceptions.testConstructions m.owner.unit m.occurrences
  Expr.printAll m.decoratorExprs
  return m.facts exceptions transactions

end RouteLens
