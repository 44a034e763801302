import RouteLens.Session

/-!
# Route feedback

One report per route.  On the side of the handler: missing guards, a missing body model, missing
documentation.  On the side of its collaborators: complexity and fetches in loops.  What cannot be
resolved becomes an informational note of its own.
-/

namespace RouteLens

variable {edition : Nat} [CharacterNames edition]

/-- A route: its handler, how it is reached, and how it is guarded.  Parameter types that are not
given are read from the handler. -/
structure Route where
  controller : String
  handler : String
  httpMethod : Option String := none
  path : Option String := none
  hasGuards : Bool := false
  isPublic : Bool := false
  paramTypes : Option (List String) := none
  feedback : Bool := true

/-- The name of a route in reports. -/
def Route.key (r : Route) : String :=
  r.controller ++ "." ++ r.handler

/-- Which paths are sensitive, which types are no models, and which methods have a body. -/
structure FeedbackRules where
  sensitivePaths : Listing
  primitiveTypes : Value
  bodyMethods : Value

namespace FeedbackRules

/-- The rules that a configuration sets, with the defaults for absent lists. -/
def ofConfig (c : Config) : Except Fault FeedbackRules := do
  let es ← c.overlaid "feedback" Config.feedbackDefaults
  return {
    sensitivePaths := (← es.need "sensitive_paths").listing .wrongKind
    primitiveTypes := ← es.need "primitive_types"
    bodyMethods := ← es.need "body_methods" }

end FeedbackRules

/-- Whether a path holds one of the sensitive parts, in lower case. -/
def isSensitivePath (sensitive : List String) (path : Option String) : Bool :=
  match path with
  | none => false
  | some p => !p.isEmpty && sensitive.any (Text.holds (Text.toLower p))

/-- Whether a route, given its method in upper case, reads a sensitive path. -/
def FeedbackRules.isSensitiveGet (rules : FeedbackRules) (method : String)
    (path : Option String) : Except Fault Bool := do
  if method != "GET" || (path.getD "").isEmpty then return false
  let found := isSensitivePath rules.sensitivePaths.texts path
  rules.sensitivePaths.settle found
  return found

/-- The findings about the documentation of a handler. -/
def docIssues (route : Route) (sensitiveGet : Bool) (docs : DocUsage) : List Issue :=
  (if docs.documented then [] else
    [{ code := "SP003"
       severity := .info
       message := "No API documentation decorators found on this handler."
       hint := some ("Describe the operation and its responses (e.g. @extend_schema) and tag " ++
        "the view.") }]) ++
  (if !route.isPublic && (route.hasGuards || sensitiveGet) && !docs.bearer then
    [{ code := "SP006"
       severity := .warn
       message := "Route looks protected but its API docs declare no bearer auth."
       hint := some "Declare the bearer security scheme on the handler or its class." }]
  else [])

/-- The finding about a handler that reads the caller without a guard. -/
def authIssues (route : Route) (auth : AuthUsage) : List Issue :=
  if auth.usesContext && !route.isPublic && !route.hasGuards then
    [{ code := "SP007"
       severity := .warn
       message := "Handler reads the authenticated user (request.user / current-user " ++
        "dependency) but has no guard."
       hint := some "Attach an access-control guard, or mark the route public explicitly." }]
  else []

/-- The findings about missing guards, given the method in upper case. -/
def guardIssues (route : Route) (method : String) (sensitiveGet : Bool) : List Issue :=
  (if sensitiveGet && !route.isPublic && !route.hasGuards then
    [{ code := "SP001"
       severity := .warn
       message := "GET route on a sensitive path has no guard."
       hint := some ("Add access control at the handler or class level, or mark the route " ++
        "public explicitly.") }]
  else []) ++
  (if !method.isEmpty && method != "GET" && !route.hasGuards then
    [{ code := "SP001"
       severity := .warn
       message := "Write route (" ++ method ++ ") has no authentication or authorization guard."
       hint := some "Add access control at the handler or class level." }]
  else [])

/-- The finding about a body without a model. -/
def bodyIssues (primitives paramTypes : List String) : List Issue :=
  if paramTypes.all primitives.contains then
    [{ code := "SP002"
       severity := .warn
       message := "Route looks like it accepts a body but no request model class is declared."
       hint := some ("Declare a pydantic model (or dataclass) and use it as the handler " ++
        "parameter type.") }]
  else []

/-- The parameter types of a route: given, or read from its handler. -/
def routeParamTypes (route : Route) : Inquiry (List String) := do
  match route.paramTypes with
  | some ts => return ts
  | none =>
    match ← Inquiry.findMethod route.controller route.handler with
    | none => return []
    | some m => m.paramDecls.mapM fun p => do return (← p.typeName).getD ""

/-- The findings on the side of the handler, in the order of the checks. -/
def controllerIssues (s : SessionRules) (route : Route) : Inquiry (List Issue) := do
  let rules ← FeedbackRules.ofConfig s.config
  let method := Text.toUpper (route.httpMethod.getD "")
  let sensitiveGet ← rules.isSensitiveGet method route.path
  let docs ← handlerDocs (.ok s.docs) route.controller route.handler
  let auth ← handlerAuth (.ok s.auth) route.controller route.handler
  let body ← if ← rules.bodyMethods.hasText method then do
      let paramTypes ← routeParamTypes route
      pure (bodyIssues (← rules.primitiveTypes.names) paramTypes)
    else pure []
  return (docs.map (docIssues route sensitiveGet)).getD [] ++
    (auth.map (authIssues route)).getD [] ++ guardIssues route method sensitiveGet ++ body

/-- The finding about a name that several files declare. -/
def ambiguityIssue (name : String) : Inquiry (Option Issue) := do
  let declarations ← Inquiry.findDeclarations name
  if declarations.length < 2 then return none
  let paths := Text.joinWith ", " (declarations.map fun c => c.unit.path.toText)
  return some {
    code := "SP905"
    severity := .info
    message := name ++ " is declared in " ++ toString declarations.length ++ " files (" ++ paths ++
      "); analyzed the first."
    hint := some "Rename one of the classes so the analysis target is unambiguous." }

/-- An informational note about something that could not be resolved. -/
def unresolved (code message : String) : Issue :=
  { code, severity := .info, message }

/-- The finding about a fetch in a loop. -/
def loopIssue (target sample : String) : Issue where
  code := "SP201"
  severity := .warn
  message := "Possible N+1 in " ++ target ++ ": '" ++ sample ++ "' is awaited inside a loop."
  hint := some "Batch the lookup (IN query, join, prefetch) or build a map before the loop."

/-- The findings about one method of a collaborator that was found. -/
def targetIssues (s : SessionRules) (type method : String) (service : ClassDecl) :
    Inquiry (List Issue) := do
  match service.findMethod? method with
  | none =>
    return [unresolved "SP904" ("Service method " ++ type ++ "." ++ method ++
      " not found (static analysis skipped).")]
  | some m =>
    let complexity := s.limits.issues type method m.complexity
    match ← methodLoopFinding s.config type method with
    | some ⟨true, sample⟩ =>
      return complexity ++ [loopIssue (type ++ "." ++ method) (sample.getD "None")]
    | _ => return complexity

/-- The findings about the collaborators that a handler calls, added to those already there.  A
name that several files declare is reported once. -/
def callIssues (s : SessionRules) : List (String × String) → List Issue → Inquiry (List Issue)
  | [], issues => return issues
  | (type, method) :: rest, issues => do
    match ← Inquiry.findClass type with
    | none =>
      callIssues s rest (issues ++ [unresolved "SP903" ("Service type " ++ type ++
        " declaration not found (static analysis skipped).")])
    | some service =>
      let ambiguity ← ambiguityIssue type
      let issues := issues ++ ambiguity.toList.filter fun i => !issues.contains i
      callIssues s rest (issues ++ (← targetIssues s type method service))

/-- The findings on the side of the collaborators. -/
def serviceIssues (s : SessionRules) (controller handler : String) : Inquiry (List Issue) := do
  match ← Inquiry.findClass controller with
  | none =>
    return [unresolved "SP900" ("Controller " ++ controller ++
      " not found in the source (static analysis skipped).")]
  | some c =>
    let issues := (← ambiguityIssue controller).toList
    if (c.findMethod? handler).isNone then
      return issues ++ [unresolved "SP901" ("Handler " ++ controller ++ "." ++ handler ++
        " not found (static analysis skipped).")]
    let calls := ((← traceServiceCalls controller handler).getD []).filterMap fun call =>
      call.targetType.map fun t => (t, call.method)
    if calls.isEmpty then
      return issues ++ [unresolved "SP902" ("No self.<field>.<method>() collaborator call " ++
        "found in " ++ controller ++ "." ++ handler ++ ".")]
    let _ ← FetchNames.ofConfig s.config
    callIssues s calls issues

/-- The report of a route. -/
structure Report where
  routeKey : String
  http : List (String × String)
  issues : List Issue

/-- The count of a report's findings by severity. -/
def Report.summary (r : Report) : List (Severity × Nat) :=
  summarize (r.issues.map Issue.severity)

/-- How a route is reached; what is not given is left out. -/
def Route.http (r : Route) : List (String × String) :=
  [("method", r.httpMethod.getD ""), ("path", r.path.getD "")].filter fun e => !e.2.isEmpty

/-- The report of a route; a route may ask for none. -/
def routeReport (s : SessionRules) (route : Route) : Inquiry Report := do
  if !route.feedback then
    Inquiry.leave (.feedbackOff route.key)
    return ⟨route.key, route.http, []⟩
  let onHandler ← controllerIssues s route
  let onServices ← serviceIssues s route.controller route.handler
  let issues := onHandler ++ onServices
  Inquiry.leave (.feedbackDone route.key issues.length)
  return ⟨route.key, route.http, issues⟩

end RouteLens
