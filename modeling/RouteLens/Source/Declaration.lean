import RouteLens.Path
import RouteLens.Source.Segment
import RouteLens.Tree.Naming
import RouteLens.Tree.Printer
import RouteLens.Tree.Traversal

/-!
# Declarations

The classes, methods, parameters and properties that a source file declares, as the analyses read
them.  Only what stands at the top level of a file or of a class body counts as declared there.
-/

namespace RouteLens

variable {edition : Nat} [CharacterNames edition]

/-- One source file that could be read. -/
structure SourceUnit where
  path : Path
  text : String
  body : List Stmt

/-- A name brought in by a `from` import. -/
structure ImportedName where
  module : String
  level : Nat
  name : String
  bound : Option String
  deriving DecidableEq

namespace ImportedName

/-- The name that the file uses for it. -/
def localName (i : ImportedName) : String :=
  match i.bound with
  | some s => if s.isEmpty then i.name else s
  | none => i.name

/-- The module with the dots of a relative import in front. -/
def qualifiedModule (i : ImportedName) : String :=
  String.ofList (List.replicate i.level '.') ++ i.module

end ImportedName

/-- How an argument reaches a parameter. -/
inductive ParamKind where
  | positional
  | vararg
  | keyword
  | kwarg
  deriving DecidableEq

/-- A parameter of a method. -/
structure ParamDecl where
  name : String
  typeExpr : Option Expr
  value : Option Expr
  kind : ParamKind

/-- The text of an optional expression, empty if there is none. -/
def printOption (e : Option Expr) : String :=
  (e.map Expr.print).getD ""

/-- The class that an optional annotation refers to. -/
def typeNameOption : Option Expr → Except Fault (Option String)
  | none => .ok none
  | some e => e.typeName

namespace ParamDecl

/-- The declared type as source text. -/
def typeText (p : ParamDecl) : String :=
  printOption p.typeExpr

/-- The class that the declared type refers to. -/
def typeName (p : ParamDecl) : Except Fault (Option String) :=
  typeNameOption p.typeExpr

/-- The parameter as it reads in a signature. -/
def text (p : ParamDecl) : String :=
  p.name ++ (match p.typeExpr with
    | none => ""
    | some e => ": " ++ e.print) ++
  (match p.value with
    | none => ""
    | some e => " = " ++ e.print)

/-- The expressions that a signature shows of the parameter. -/
def exprs (p : ParamDecl) : List Expr :=
  p.typeExpr.toList ++ p.value.toList

/-- The names of calls that mark the parameter: the called default, and the metadata of its
annotation. -/
def tags (p : ParamDecl) : Except Fault (List String) := do
  let fromValue := match p.value with
    | some (.node _ (.call func _ _)) => func.terminalName?.toList
    | _ => []
  match p.typeExpr with
  | some (.node _ (.subscript base index)) =>
    match ← base.typeName, index with
    | some "Annotated", .node _ (.tuple metas) =>
      return fromValue ++ (metas.drop 1).filterMap Expr.terminalName?
    | _, _ => return fromValue
  | _ => return fromValue

end ParamDecl

/-- A class, and the place of its statement in its file. -/
structure ClassDecl where
  unit : SourceUnit
  number : Nat
  stmt : Stmt
  name : String
  bases : List Expr
  keywords : List Keyword
  body : List Stmt
  decorators : List Expr

/-- A method of a class. -/
structure MethodDecl where
  owner : ClassDecl
  stmt : Stmt
  isAsync : Bool
  name : String
  params : Params
  body : List Stmt
  decorators : List Expr
  returns : Option Expr

/-- A declared attribute of a class. -/
structure PropertyDecl where
  owner : ClassDecl
  name : String
  typeExpr : Expr
  value : Option Expr

namespace SourceUnit

/-- The file as one construct. -/
def node (u : SourceUnit) : Node :=
  .file u.body

/-- The class that the statement at a place of a file declares. -/
def classAt? (u : SourceUnit) (number : Nat) (s : Stmt) : Option ClassDecl :=
  match s with
  | .node _ (.classDef name bases keywords body decorators) =>
    some ⟨u, number, s, name, bases, keywords, body, decorators⟩
  | _ => none

/-- The classes of a file, in order. -/
def classes (u : SourceUnit) : List ClassDecl :=
  u.body.zipIdx.filterMap fun x => u.classAt? x.2 x.1

/-- The first class with a name. -/
def findClass? (u : SourceUnit) (name : String) : Option ClassDecl :=
  u.classes.find? (·.name == name)

/-- The names brought in by `from` imports, in document order; a star brings in none. -/
def imports (u : SourceUnit) : List ImportedName :=
  u.node.descendants.flatMap fun
    | .stmt (.node _ (.importFrom module names level)) =>
      (names.filter (·.name != "*")).map fun a => ⟨module.getD "", level, a.name, a.bound⟩
    | _ => []

/-- The source text of an expression as it was written. -/
def segmentOf (u : SourceUnit) (e : Expr) : String :=
  let s := segment u.text e.span
  if s.isEmpty then e.print else s

end SourceUnit

namespace ClassDecl

/-- The names of the bases; bases without a name are left out. -/
def baseNames (c : ClassDecl) : Except Fault (List String) := do
  return (← c.bases.mapM Expr.typeName).filterMap id

/-- The bases as source text. -/
def baseTexts (c : ClassDecl) : List String :=
  c.bases.map Expr.print

/-- The names of the decorators; decorators without a name are left out. -/
def decoratorNames (c : ClassDecl) : List String :=
  c.decorators.filterMap Expr.terminalName?

/-- The methods, in order. -/
def methods (c : ClassDecl) : List MethodDecl :=
  c.body.filterMap fun s =>
    match s with
    | .node _ (.function isAsync name params body decorators returns) =>
      some ⟨c, s, isAsync, name, params, body, decorators, returns⟩
    | _ => none

theorem owner_of_mem_methods {c : ClassDecl} {m : MethodDecl} (hm : m ∈ c.methods) :
    m.owner = c := by
  obtain ⟨s, -, hs⟩ := List.mem_filterMap.1 hm
  split at hs
  · cases hs
    rfl
  · cases hs

/-- The first method with a name. -/
def findMethod? (c : ClassDecl) (name : String) : Option MethodDecl :=
  c.methods.find? (·.name == name)

/-- The annotated attributes of the class body, in order. -/
def properties (c : ClassDecl) : List PropertyDecl :=
  c.body.filterMap fun
    | .node _ (.annAssign (.node _ (.name id)) typeExpr value) => some ⟨c, id, typeExpr, value⟩
    | _ => none

/-- The first property with a name. -/
def findProperty? (c : ClassDecl) (name : String) : Option PropertyDecl :=
  c.properties.find? (·.name == name)

/-- What tells one class of a project from another, also from one of the same name in the same
file. -/
def key (c : ClassDecl) : Path × Nat :=
  (c.unit.path, c.number)

/-- The constructs of a class in document order. -/
def occurrences (c : ClassDecl) : List Occurrence :=
  (Node.stmt c.stmt).occurrences []

/-- The constructor. -/
def constructor? (c : ClassDecl) : Option MethodDecl :=
  c.findMethod? "__init__"

end ClassDecl

namespace MethodDecl

/-- How a method is named in messages. -/
def label (m : MethodDecl) : String :=
  "MethodSite(" ++ m.owner.name ++ "." ++ m.name ++ ")"

/-- The names of the decorators; decorators without a name are left out. -/
def decoratorNames (m : MethodDecl) : List String :=
  m.decorators.filterMap Expr.terminalName?

/-- The decorators without the arguments of their calls. -/
def decoratorExprs (m : MethodDecl) : List Expr :=
  m.decorators.map fun
    | .node _ (.call func _ _) => func
    | e => e

/-- The decorators as source text, without the arguments of their calls. -/
def decoratorTexts (m : MethodDecl) : List String :=
  m.decoratorExprs.map Expr.print

/-- Whether the method takes no instance. -/
def isStatic (m : MethodDecl) : Bool :=
  m.decoratorNames.contains "staticmethod"

/-- All declared parameters, in the order of a signature. -/
def allParams (m : MethodDecl) : List ParamDecl :=
  match m.params with
  | .mk posOnly args vararg kwOnly kwDefaults kwarg defaults =>
    let positional := posOnly ++ args
    let values := Printer.alignDefaults positional.length defaults
    positional.zipWith (fun p d => ⟨p.name, p.typeExpr, d, .positional⟩) values ++
      vararg.toList.map (fun p => ⟨p.name, p.typeExpr, none, .vararg⟩) ++
      kwOnly.zipWith (fun p d => ⟨p.name, p.typeExpr, d, .keyword⟩) kwDefaults ++
      kwarg.toList.map (fun p => ⟨p.name, p.typeExpr, none, .kwarg⟩)

/-- The parameters without the leading instance or class. -/
def paramDecls (m : MethodDecl) : List ParamDecl :=
  if m.params.positional.isEmpty || m.isStatic then m.allParams else m.allParams.drop 1

/-- The declared types of the parameters and of the result. -/
def signatureTypes (m : MethodDecl) : List Expr :=
  m.paramDecls.filterMap ParamDecl.typeExpr ++ m.returns.toList

/-- The declared result type as source text. -/
def returnText (m : MethodDecl) : String :=
  printOption m.returns

/-- The constructs of the body, statement by statement, in document order. -/
def occurrences (m : MethodDecl) : List Occurrence :=
  m.body.flatMap fun s =>
    let trail := [⟨.stmt m.stmt, .plain⟩]
    ⟨.stmt s, trail⟩ :: (Node.stmt s).occurrences trail

/-- The source text of an expression as it was written. -/
def segmentOf (m : MethodDecl) (e : Expr) : String :=
  m.owner.unit.segmentOf e

end MethodDecl

namespace ClassDecl

/-- The parameters of the constructor. -/
def constructorParams (c : ClassDecl) : List ParamDecl :=
  match c.constructor? with
  | none => []
  | some m => m.paramDecls

/-- The attribute of `self` that an expression is, if it is one. -/
def selfAttribute? : Expr → Option String
  | .node _ (.attribute (.node _ (.name "self")) attr) => some attr
  | _ => none

/-- An assignment to an attribute of `self`: the attribute, its declared type and its value. -/
structure SelfAssignment where
  name : String
  typeExpr : Option Expr
  value : Option Expr

/-- The assignments to attributes of `self` in the constructor, in document order. -/
def selfTargets (c : ClassDecl) : List SelfAssignment :=
  match c.constructor? with
  | none => []
  | some m => m.occurrences.flatMap fun o =>
    match o.node with
    | .stmt (.node _ (.assign targets value)) =>
      (targets.filterMap selfAttribute?).map fun a => ⟨a, none, some value⟩
    | .stmt (.node _ (.annAssign target typeExpr value)) =>
      (selfAttribute? target).toList.map fun a => ⟨a, some typeExpr, value⟩
    | _ => []

/-- The annotated attributes of `self` in the constructor. -/
def instanceProperties (c : ClassDecl) : List PropertyDecl :=
  c.selfTargets.filterMap fun t => t.typeExpr.map fun e => ⟨c, t.name, e, t.value⟩

/-- The attributes of `self` that the constructor gives a value, with that value. -/
def selfAssignments (c : ClassDecl) : List (String × Expr) :=
  c.selfTargets.filterMap fun t => t.value.map fun v => (t.name, v)

end ClassDecl

end RouteLens
