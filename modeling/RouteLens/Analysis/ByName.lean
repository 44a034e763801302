import RouteLens.Analysis.ApiDocs
import RouteLens.Analysis.Auth
import RouteLens.Analysis.Complexity
import RouteLens.Analysis.Exceptions
import RouteLens.Analysis.LoopFetches
import RouteLens.Inquiry

/-!
# Analyses by name

The analyses of a class or a method that is given by its name.  A name that leads nowhere has no
result, and then no setting is read either.
-/

namespace RouteLens

variable {edition : Nat} [CharacterNames edition]

/-- The entry handler of a trace. -/
def entryMethod (className methodName : String) : Inquiry (Option MethodDecl) := do
  match ← Inquiry.findClass className with
  | none =>
    Inquiry.leave (.entryClassMissing className)
    return none
  | some c =>
    match c.findMethod? methodName with
    | none =>
      Inquiry.leave (.entryMethodMissing className methodName)
      return none
    | some m => return some m

/-- The first call of an entry handler to a collaborator. -/
def firstServiceCall (className methodName : String) : Inquiry (Option ServiceCall) := do
  match ← entryMethod className methodName with
  | none => return none
  | some m => m.firstServiceCall?

/-- Every distinct call of an entry handler to a collaborator. -/
def traceServiceCalls (className methodName : String) : Inquiry (Option (List ServiceCall)) := do
  match ← entryMethod className methodName with
  | none => return none
  | some m => return some (← m.serviceCalls)

/-- The complexity of a method. -/
def methodComplexity (className methodName : String) : Inquiry (Option Nat) := do
  return (← Inquiry.findMethod className methodName).map MethodDecl.complexity

/-- Whether a method fetches in a loop. -/
def methodLoopFinding (c : Config) (className methodName : String) :
    Inquiry (Option LoopFinding) := do
  match ← Inquiry.findMethod className methodName with
  | none => return none
  | some m =>
    let found ← m.findLoopFetch (← FetchNames.ofConfig c)
    if let some f := found then Inquiry.leave (.loopFetch f.name m.label)
    return some (m.findingOf found)

/-- The representative exception of a class. -/
def classException (rules : Except Fault ExceptionRules) (className : String) :
    Inquiry (Option ExceptionHint) := do
  match ← Inquiry.findClass className with
  | none => return none
  | some c => (← rules).inferred c

/-- How a handler touches the caller. -/
def handlerAuth (rules : Except Fault AuthRules) (className methodName : String) :
    Inquiry (Option AuthUsage) := do
  match ← Inquiry.findMethod className methodName with
  | none => return none
  | some m => return some (← (← rules).analyze m)

/-- What a handler documents. -/
def handlerDocs (rules : Except Fault DocRules) (className methodName : String) :
    Inquiry (Option DocUsage) := do
  match ← Inquiry.findMethod className methodName with
  | none => return none
  | some m => return some ((← rules).analyze m)

end RouteLens
