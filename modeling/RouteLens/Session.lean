import RouteLens.Analysis.ByName
import RouteLens.Analysis.Method
import RouteLens.Payload.Synthesis
import RouteLens.Project
import RouteLens.ResultCache

/-!
# Sessions

The state that analyses share: the projects that were loaded, where classes were found, and the
results that are kept.  A project is kept per root and build file; a place where a class was found
is checked again before it is used.
-/

namespace RouteLens

variable {edition : Nat} [CharacterNames edition]

/-- The rules that are read once, when a session starts. -/
structure SessionRules where
  config : Config
  limits : ComplexityLimits
  auth : AuthRules
  docs : DocRules
  exceptions : ExceptionRules

/-- The notes about patterns that were refused. -/
def Patterns.notes (ps : Patterns) : List Note :=
  ps.refused.map fun p => .patternRefused p.text p.reason

/-- What a loaded project is kept under: its root, and its build file if there is one. -/
structure ProjectKey where
  root : Path
  build : Option Path
  deriving DecidableEq

/-- What a place of a class is kept under. -/
structure ClassKey where
  root : Path
  name : String
  deriving DecidableEq

/-- The state of a session. -/
structure Session where
  rules : SessionRules
  directory : Path
  disk : Disk
  languages : Languages := .default
  now : Binary64
  projects : List (ProjectKey × Project) := []
  places : List (ClassKey × Path) := []
  projectLoads : Nat := 0
  classHits : Nat := 0
  classScans : Nat := 0
  results : ResultCache (Option MethodFacts)
  notes : List Note := []

/-- A step of a session.  A fault does not undo what the step did before it. -/
abbrev Action := ExceptT Fault (StateM Session)

namespace Session

/-- The rules and the notes of a configuration, in the order in which its sections are read. -/
def readRules (c : Config) : Except Fault (SessionRules × Binary64 × List Note) := do
  let cache ← c.overlaid "cache" Config.cacheDefaults
  let ttl ← (← cache.need "result_ttl").toFloat
  let limits ← ComplexityLimits.ofConfig c
  let auth ← AuthRules.ofConfig c
  let authNote : Note :=
    if AuthRules.isSet (← c.entries "auth") then
      .authRead auth.params.usable.length auth.decorators.usable.length
    else .authDefault
  let docs ← DocRules.ofConfig c
  let exceptions ← ExceptionRules.ofConfig c
  let notes := [.limitsRead limits.info limits.warn] ++ auth.params.notes ++
    auth.decorators.notes ++ [authNote]
  return (⟨c, limits, auth, docs, exceptions⟩, ttl, notes)

/-- Starts a session in a directory of a disk. -/
def start (c : Config) (directory : Path) (disk : Disk) (now : Binary64) :
    Except Fault Session := do
  let (rules, ttl, notes) ← readRules c.orDefault
  return { rules, directory, disk, now, results := { ttl }, notes := notes.reverse }

/-- Leaves notes, given the last one first. -/
def leaveNotes (notes : List Note) : Action Unit :=
  modify fun s => { s with notes := notes ++ s.notes }

/-- The absolute path of a root. -/
def resolveRoot (root : Path) : Action Path := do
  return Path.resolve (← get).directory root

/-- What the project of a root is kept under now. -/
def projectKey (rules : DiscoveryRules) (root : Path) : Action ProjectKey := do
  return ⟨root, ← rules.findBuildFile (← get).disk root⟩

/-- The project of a root, loaded unless it is kept, and what it is kept under. -/
def project (root : Path) : Action (ProjectKey × Project) := do
  let rules ← DiscoveryRules.ofConfig (← get).rules.config
  let key ← projectKey rules root
  let s ← get
  match s.projects.lookup key with
  | some p => return (key, p)
  | none =>
    let (p, notes) ← Project.load s.disk s.languages rules root
    let build := (key.build.map Path.toText).getD "no-build-config"
    set { s with
      projects := (key, p) :: s.projects
      projectLoads := s.projectLoads + 1
      notes := .projectMissed root build :: (notes ++ s.notes) }
    return (key, p)

/-- Puts a project in the place of the one kept under the same key. -/
def putProject (key : ProjectKey) (p : Project) :
    List (ProjectKey × Project) → List (ProjectKey × Project)
  | [] => []
  | (k, q) :: rest => if k = key then (k, p) :: rest else (k, q) :: putProject key p rest

/-- Runs a step that may read files of a project, and keeps what was read. -/
def loading {α : Type} (key : ProjectKey) (p : Project) (step : StateM Loading α) :
    Action α := do
  let s ← get
  let (a, l) := step.run ⟨s.disk, s.languages, p, s.notes⟩
  set { s with projects := putProject key l.project s.projects, notes := l.notes }
  return a

/-- The class at a place that was remembered. -/
def classAt (key : ProjectKey) (p : Project) (path : Path) (name : String) :
    Action (Option ClassDecl) := do
  return (← loading key p (Project.unit path)).bind (·.findClass? name)

/-- Scans a project for a class and remembers where it is. -/
def scanForClass (root : Path) (name : String) : Action (Option ClassDecl) := do
  modify fun s => { s with classScans := s.classScans + 1 }
  let (key, p) ← project root
  match ← loading key p (Project.firstWith name p.files) with
  | some c =>
    modify fun s => { s with places := (⟨root, name⟩, c.unit.path) :: s.places }
    leaveNotes [.classFound name c.unit.path]
    return some c
  | none =>
    leaveNotes [.classMissing name root]
    return none

/-- Forgets where a class was found. -/
def forgetPlace (key : ClassKey) : Action Unit :=
  modify fun s => { s with places := s.places.filter fun e => e.1 ≠ key }

/-- The class of a name in the project of a root.  The first file that declares it counts. -/
def findClass (root : Path) (name : String) : Action (Option ClassDecl) := do
  let root ← resolveRoot root
  let (key, p) ← project root
  match (← get).places.lookup ⟨root, name⟩ with
  | none => scanForClass root name
  | some path =>
    match ← classAt key p path name with
    | some c =>
      modify fun s => { s with classHits := s.classHits + 1 }
      return some c
    | none =>
      forgetPlace ⟨root, name⟩
      scanForClass root name

/-- Every class of a name in the project of a root, in path order. -/
def findDeclarations (root : Path) (name : String) : Action (List ClassDecl) := do
  let root ← resolveRoot root
  let (key, p) ← project root
  return (← loading key p (Project.unitsOf p.files)).filterMap (·.findClass? name)

/-- The number of usable files of the project of a root. -/
def loadAll (root : Path) : Action Nat := do
  let root ← resolveRoot root
  let (key, p) ← project root
  return (← loading key p (Project.unitsOf p.files)).length

/-- The unit of a file of the project of a root. -/
def unitAt (root path : Path) : Action (Option SourceUnit) := do
  let root ← resolveRoot root
  let (key, p) ← project root
  loading key p (Project.unit path)

/-- Drops everything that is kept for a root. -/
def invalidate (root : Path) : Action Unit := do
  let root ← resolveRoot root
  modify fun s => { s with
    projects := s.projects.filter fun e => e.1.root ≠ root
    places := s.places.filter fun e => e.1.root ≠ root
    results := s.results.invalidate root }

/-- Answers an inquiry from the project of a root. -/
def run {α : Type} (root : Path) : Inquiry α → Action α
  | .done a => return a
  | .fail f => throw f
  | .find name next => do
    let c ← findClass root name
    run root (next c)
  | .declarations name next => do
    let cs ← findDeclarations root name
    run root (next cs)
  | .note n next => do
    leaveNotes [n]
    run root next

/-- A bound on the number of classes in the project of a root. -/
def classLimit (root : Path) : Action Nat := do
  let root ← resolveRoot root
  let (_, p) ← project root
  return p.size (← get).disk + 1

/-- The facts about a method, kept for a while.  The number tells one computation from another. -/
def analyze (root : Path) (className methodName : String) :
    Action (Option MethodFacts × Nat) := do
  let root ← resolveRoot root
  let key : ResultKey := ⟨root, className, methodName⟩
  let s ← get
  match s.results.get? s.now key with
  | some e =>
    leaveNotes [.resultReused className methodName]
    return (e.value, e.serial)
  | none =>
    let facts ← match ← run root (Inquiry.findMethod className methodName) with
      | none => pure none
      | some m => do
        let transactions ← transactionPatterns s.rules.config
        leaveNotes transactions.notes.reverse
        pure (some (← m.gatherFacts s.rules.exceptions transactions))
    modify fun s => { s with results := s.results.put s.now key facts }
    return (facts, (← get).results.serial - 1)

/-- The payload of a class. -/
def samplePayload (root : Path) (className : String) (maxDepth : Option Int) :
    Action (Option Value) := do
  let r ← PayloadRules.ofConfig (← get).rules.config
  run root (synthesize r (← classLimit root) className maxDepth)

/-- What payload synthesis makes of a class. -/
structure ClassKind where
  isEnum : Bool
  isStructured : Bool
  firstValue : Option Value

/-- What payload synthesis makes of a class given by its name. -/
def classify (root : Path) (className : String) : Action (Option ClassKind) := do
  match ← findClass root className with
  | none => return none
  | some c =>
    let r ← PayloadRules.ofConfig (← get).rules.config
    let limit ← classLimit root
    run root do
      let isEnum ← r.isEnum limit c
      let isStructured ← r.isStructured limit c
      return some ⟨isEnum, isStructured, ← r.firstValue? limit c⟩

/-- The payloads of the parameters of a handler. -/
def sampleHandler (root : Path) (className methodName : String) :
    Action (Option (Ordered Value)) := do
  let c := (← get).rules.config
  run root (handlerPayloads c (← classLimit root) className methodName)

end Session

end RouteLens
