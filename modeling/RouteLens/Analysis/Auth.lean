import RouteLens.Config.Reading
import RouteLens.Regex.Patterns
import RouteLens.Source.Declaration

/-!
# The authenticated caller

How a handler touches the authenticated caller: it reads the user of a request, declares a
dependency on the current user, takes a parameter whose type looks like a user, or carries a
decorator for access control.
-/

namespace RouteLens

variable {edition : Nat} [CharacterNames edition]

/-- The patterns and names that show use of the caller. -/
structure AuthRules where
  params : Patterns
  decorators : Patterns
  requestNames : List String

/-- How a handler touches the caller. -/
structure AuthUsage where
  requestUser : Bool
  dependency : Bool
  authType : Bool
  decorator : Bool
  deriving DecidableEq

/-- Whether a handler uses the caller in its body or signature. -/
def AuthUsage.usesContext (u : AuthUsage) : Bool :=
  u.requestUser || u.dependency || u.authType

namespace AuthRules

/-- The rules in a complete section. -/
def ofEntries (es : Entries) : Except Fault AuthRules := do
  let o : RegexOptions := { ignoreCase := true }
  return {
    params := Patterns.read o (← es.textsOr "parameters" [])
    decorators := Patterns.read o (← es.textsOr "decorators" [])
    requestNames := ← (← es.need "request_param_names").names }

/-- The rules that hold where none are configured. -/
def default : Except Fault AuthRules :=
  ofEntries Config.authDefaults

/-- Whether a section sets patterns of its own; without any it is left aside. -/
def isSet (es : Entries) : Bool :=
  ((Value.get? es "parameters").any Value.truthy) || ((Value.get? es "decorators").any Value.truthy)

/-- The rules that a configuration sets. -/
def ofConfig (c : Config) : Except Fault AuthRules := do
  let es ← c.entries "auth"
  if isSet es then ofEntries (Entries.overlay Config.authDefaults es) else default

/-- Whether a parameter holds a request, by its name or its type. -/
def isRequest (r : AuthRules) (p : ParamDecl) : Except Fault Bool := do
  if r.requestNames.contains p.name then return true
  return Text.holds (Text.toLower ((← p.typeName).getD "")) "request"

/-- Whether a type name looks like that of a caller. -/
def isAuthType (name : String) : Bool :=
  let n := Text.toLower name
  Text.holds n "user" || Text.holds n "auth"

/-- Whether a construct reads the user of one of the named requests. -/
def readsUser (requests : List String) : Node → Bool
  | .expr (.node _ (.attribute (.node _ (.attribute (.node _ (.name id)) "state")) "user")) =>
    requests.contains id
  | .expr (.node _ (.attribute (.node _ (.name id)) "user")) => requests.contains id
  | _ => false

/-- How a handler touches the caller. -/
def analyze (r : AuthRules) (m : MethodDecl) : Except Fault AuthUsage := do
  let types ← m.paramDecls.mapM fun p => do
    Expr.printAll p.exprs
    return (← p.typeName).getD ""
  let requests ← m.paramDecls.filterM r.isRequest
  let decorators := Text.joinWith "\n" (m.decorators.map m.segmentOf)
  return {
    requestUser :=
      m.occurrences.any fun o => readsUser (requests.map ParamDecl.name) o.node
    dependency := m.paramDecls.any fun p => r.params.search p.text
    authType := types.any isAuthType
    decorator := r.decorators.search decorators }

end AuthRules

end RouteLens
