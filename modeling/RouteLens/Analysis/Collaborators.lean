import RouteLens.Analysis.FieldTypes

/-!
# Calls to collaborators

The calls `self.field.method(...)` by which a method hands work to the objects that its class holds.
-/

namespace RouteLens

variable {edition : Nat} [CharacterNames edition]

/-- The length to which quoted source text is cut. -/
def snippetLength : Int := 140

/-- A call to a collaborator: the field and the method called on it. -/
structure FieldCall where
  field : String
  method : String
  deriving DecidableEq

/-- A call to a collaborator and where it was found. -/
structure CallSite where
  receiver : String
  method : String
  inLoop : Bool
  snippet : Option String
  line : Nat

/-- A call to a collaborator with the type of its field. -/
structure ServiceCall where
  field : String
  method : String
  targetType : Option String

namespace Expr

/-- The call to a collaborator that an expression is, if it is one. -/
def fieldCall? : Expr → Option FieldCall
  | .node _ (.call (.node _ (.attribute
      (.node _ (.attribute (.node _ (.name "self")) field)) method)) _ _) => some ⟨field, method⟩
  | _ => none

end Expr

namespace Occurrence

/-- The expression that a construct is, if it is one. -/
def expr? (o : Occurrence) : Option Expr :=
  match o.node with
  | .expr e => some e
  | _ => none

/-- The call to a collaborator that a construct is, if it is one. -/
def fieldCall? (o : Occurrence) : Option FieldCall :=
  o.expr?.bind Expr.fieldCall?

end Occurrence

/-- Goes through calls and leaves out those that were seen before. -/
def FieldCall.unseen (seen : List FieldCall) : List FieldCall → List FieldCall
  | [] => []
  | c :: cs => if seen.contains c then unseen seen cs else c :: unseen (c :: seen) cs

namespace MethodDecl

/-- The calls to collaborators, in document order. -/
def fieldCalls (m : MethodDecl) : List FieldCall :=
  m.occurrences.filterMap Occurrence.fieldCall?

/-- The call to a collaborator that a construct of a method is, with its place. -/
def callSite? (m : MethodDecl) (o : Occurrence) : Option CallSite := do
  let e ← o.expr?
  let call ← e.fieldCall?
  return {
    receiver := call.field
    method := call.method
    inLoop := o.inLoop
    snippet := Text.truncate (m.segmentOf e) snippetLength
    line := e.span.start.line }

/-- The calls to collaborators with their places, in document order. -/
def callSites (m : MethodDecl) : List CallSite :=
  m.occurrences.filterMap m.callSite?

/-- The first call to a collaborator, with the type of its field.  The types of the fields are read
only if there is one. -/
def firstServiceCall? (m : MethodDecl) : Except Fault (Option ServiceCall) := do
  match m.occurrences.findSome? Occurrence.fieldCall? with
  | none => return none
  | some c => return some ⟨c.field, c.method, (← FieldTypes.ofClass m.owner).typeOf? c.field⟩

/-- The distinct calls to collaborators, with the types of their fields. -/
def serviceCalls (m : MethodDecl) : Except Fault (List ServiceCall) := do
  let types ← FieldTypes.ofClass m.owner
  return (FieldCall.unseen [] m.fieldCalls).map fun c => ⟨c.field, c.method, types.typeOf? c.field⟩

end MethodDecl

end RouteLens
