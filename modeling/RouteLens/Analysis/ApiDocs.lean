import RouteLens.Config.Reading
import RouteLens.Source.Declaration

/-!
# Interface documentation

Which documentation decorators a handler and its class carry.  Operations and responses are
documented on the handler; tags and bearer authentication count on either.
-/

namespace RouteLens

/-- The decorators that document each section. -/
structure DocRules where
  operation : List String
  response : List String
  tags : List String
  bearer : List String

/-- What a handler documents. -/
structure DocUsage where
  operation : Bool
  response : Bool
  tags : Bool
  bearer : Bool
  decorators : List String
  deriving DecidableEq

/-- Whether a handler is documented at all. -/
def DocUsage.documented (u : DocUsage) : Bool :=
  u.operation || u.response || u.tags

namespace DocRules

/-- The rules that a configuration sets, with the defaults for absent lists. -/
def ofConfig (c : Config) : Except Fault DocRules := do
  let es ← c.overlaid "openapi" Config.docDefaults
  let list (key : String) : Except Fault (List String) := do (← es.need key).names
  return ⟨← list "operation", ← list "response", ← list "tags", ← list "bearer"⟩

/-- The names of the keyword arguments of called decorators. -/
def keywordNames (decorators : List Expr) : List String :=
  decorators.flatMap fun
    | .node _ (.call _ _ keywords) => keywords.filterMap Keyword.name
    | _ => []

/-- Whether two lists share a name. -/
def meets (a b : List String) : Bool :=
  a.any b.contains

/-- What a handler documents. -/
def analyze (r : DocRules) (m : MethodDecl) : DocUsage :=
  let onMethod := m.decoratorNames
  let onEither := onMethod ++ m.owner.decoratorNames
  let keywords := keywordNames (m.decorators ++ m.owner.decorators)
  { operation := meets onMethod r.operation
    response := meets onMethod r.response || meets keywords ["responses", "response"]
    tags := meets onEither r.tags || meets keywords ["tags"]
    bearer := meets onEither r.bearer || meets keywords ["auth", "security"]
    decorators := onMethod }

end DocRules

end RouteLens
