import RouteLens.Config.Listing
import RouteLens.Ordered
import RouteLens.Source.Declaration

/-!
# Representative exceptions

The one exception that a class most likely fails with.  Two signals count: exception names that its
file imports from a known module, and exceptions that the class constructs, which weigh two inside
a `raise` statement and one elsewhere.  A fixed list of names comes before either.
-/

namespace RouteLens

/-- Which modules and endings mark an exception, and which names come first. -/
structure ExceptionRules where
  modules : Listing
  suffixes : Listing
  priority : Listing

/-- An exception and the module it is imported from. -/
structure ExceptionHint where
  name : String
  source : Option String
  deriving DecidableEq

namespace ExceptionRules

/-- The rules that a configuration sets; absent lists keep their defaults. -/
def ofConfig (c : Config) : Except Fault ExceptionRules := do
  let es ← c.entries "exceptions"
  let members (key : String) : Except Fault (List Value) := do
    match Value.get? es key with
    | none | some .null => (← Entries.need Config.exceptionDefaults key).members
    | some v => v.members
  return {
    modules := .ofMembers .wrongKind (← members "modules")
    suffixes := .ofMembers .wrongKind (← members "suffixes")
    priority := .ofKeys (← members "priority") }

/-- Whether a name is that of an exception. -/
def isExceptionName (r : ExceptionRules) (name : String) : Bool :=
  !name.isEmpty && r.suffixes.texts.any (Text.endsWith name)

/-- Whether a module is known to hold exceptions: by its whole name, or by its last parts. -/
def isKnownModule (r : ExceptionRules) (module : String) : Bool :=
  !module.isEmpty &&
    r.modules.texts.any fun known => module == known || Text.endsWith module ("." ++ known)

/-- The exceptions that a file imports from known modules, by the names that the file uses. -/
def importedNames (r : ExceptionRules) (u : SourceUnit) : Ordered ImportedName :=
  u.imports.foldl (fun t i =>
    if r.isKnownModule i.module && r.isExceptionName i.name then t.putNew i.localName i else t) []

/-- The name that an expression refers to, if it is a name or an attribute. -/
def plainName? : Expr → Option String
  | .node _ (.name id) => some id
  | .node _ (.attribute _ attr) => some attr
  | _ => none

/-- What a construct constructs, and how much that weighs. -/
def construction? (o : Occurrence) : Option (String × Nat) :=
  match o.node with
  | .expr (.node _ (.call func _ _)) =>
    (plainName? func).map fun n => (n, if o.inRaise then 2 else 1)
  | .stmt (.node _ (.raises (some exc) _)) => (plainName? exc).map fun n => (n, 2)
  | _ => none

/-- The name under which an exception was declared. -/
def declaredName (aliases : Ordered ImportedName) (name : String) : String :=
  match aliases.get? name with
  | some i => i.name
  | none => name

/-- The exceptions that a run of constructs constructs with their weights, in the order of their
first appearance. -/
def weigh (r : ExceptionRules) (aliases : Ordered ImportedName) (os : List Occurrence) :
    Ordered Nat :=
  os.foldl (fun t o =>
    match construction? o with
    | none => t
    | some (n, w) =>
      let name := declaredName aliases n
      if r.isExceptionName name then Ordered.put name ((t.get? name).getD 0 + w) t else t) []

/-- The weights of the exceptions that a class constructs. -/
def classWeights (r : ExceptionRules) (c : ClassDecl) : Ordered Nat :=
  r.weigh (r.importedNames c.unit) c.occurrences

/-- The exceptions that a method constructs or raises. -/
def methodExceptions (r : ExceptionRules) (m : MethodDecl) : List String :=
  (r.weigh (r.importedNames m.owner.unit) m.occurrences).keys

/-- The module from which a file first imports a name. -/
def sourceOf (u : SourceUnit) (name : String) : Option String :=
  (u.imports.find? (·.name == name)).map ImportedName.qualifiedModule

/-- The first entry of the greatest weight. -/
def heaviest? : Ordered Nat → Option (String × Nat)
  | [] => none
  | e :: es => some (es.foldl (fun best e => if best.2 < e.2 then e else best) e)

/-- The representative exception of a class. -/
def infer (r : ExceptionRules) (c : ClassDecl) : Option ExceptionHint :=
  let imported : Ordered ImportedName :=
    (r.importedNames c.unit).foldl (fun t e => Ordered.put e.2.name e.2 t) []
  let weights := r.classWeights c
  match r.priority.texts.find? fun n => weights.hasKey n || imported.hasKey n with
  | some n => some ⟨n, sourceOf c.unit n⟩
  | none =>
    match heaviest? weights with
    | some (n, _) => some ⟨n, sourceOf c.unit n⟩
    | none => imported.head?.map fun e => ⟨e.2.name, some e.2.qualifiedModule⟩

/-! ## Rules that break off

A rule with a member that is no text has a fault for every name that its texts do not settle. -/

/-- Tests a name for that of an exception. -/
def testName (r : ExceptionRules) (name : String) : Except Fault Bool := do
  let found := r.isExceptionName name
  r.suffixes.settle (name.isEmpty || found)
  return found

/-- Tests a module for a known one. -/
def testModule (r : ExceptionRules) (module : String) : Except Fault Bool := do
  let found := r.isKnownModule module
  r.modules.settle (module.isEmpty || found)
  return found

/-- Tests what a file imports. -/
def testImports (r : ExceptionRules) (u : SourceUnit) : Except Fault Unit :=
  u.imports.forM fun i => do
    if ← r.testModule i.module then
      let _ ← r.testName i.name

/-- Tests what a run of constructs in a file constructs. -/
def testConstructions (r : ExceptionRules) (u : SourceUnit) (os : List Occurrence) :
    Except Fault Unit :=
  (os.filterMap construction?).forM fun e => do
    let _ ← r.testName (declaredName (r.importedNames u) e.1)

/-- The representative exception of a class, if no rule breaks off on the way to it. -/
def inferred (r : ExceptionRules) (c : ClassDecl) : Except Fault (Option ExceptionHint) := do
  r.testImports c.unit
  r.testConstructions c.unit c.occurrences
  let hint := r.infer c
  r.priority.settle (hint.any fun h => r.priority.texts.contains h.name)
  return hint

end ExceptionRules

end RouteLens
