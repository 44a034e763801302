import RouteLens.Ordered
import RouteLens.Source.Declaration

/-!
# Field types

The types of the fields of a class.  A declared type comes first, then the type of a constructor
parameter of the same name, then what the constructor assigns to the field: one of its parameters,
or a new object of a class.
-/

namespace RouteLens

variable {edition : Nat} [CharacterNames edition]

/-- What is known about the types of the fields of a class. -/
structure FieldTypes where
  declared : Ordered String
  params : Ordered String
  assigned : Ordered String

namespace FieldTypes

/-- The annotated attributes with their types; the first declaration of a field holds. -/
def declaredTypes (ps : List PropertyDecl) : Except Fault (Ordered String) :=
  ps.foldlM (fun t p => do
    match ← p.typeExpr.typeName with
    | some n => return t.putNew p.name n
    | none => return t) []

/-- The parameters with their types; the last parameter of a name holds. -/
def paramTypes (ps : List ParamDecl) : Except Fault (Ordered String) :=
  ps.foldlM (fun t p => do
    match ← p.typeName with
    | some n => return Ordered.put p.name n t
    | none => return t) []

/-- Whether a name looks like that of a class. -/
def isClassLike (name : String) : Bool :=
  match name.toList with
  | c :: _ => Text.isCapital c
  | [] => false

/-- The type of an assigned value, if it is a parameter or a new object. -/
def valueType? (params : Ordered String) : Expr → Except Fault (Option String)
  | .node _ (.name id) => .ok (params.get? id)
  | .node _ (.call func _ _) => do
    return (← func.typeName).filter isClassLike
  | _ => .ok none

/-- The assigned fields with their types; the first assignment with a type holds. -/
def assignedTypes (params : Ordered String) (as : List (String × Expr)) :
    Except Fault (Ordered String) :=
  as.foldlM (fun t a => do
    match ← valueType? params a.2 with
    | some n => return t.putNew a.1 n
    | none => return t) []

/-- The field types of a class. -/
def ofClass (c : ClassDecl) : Except Fault FieldTypes := do
  let declared ← declaredTypes (c.properties ++ c.instanceProperties)
  let params ← paramTypes c.constructorParams
  return ⟨declared, params, ← assignedTypes params c.selfAssignments⟩

/-- The type of a field. -/
def typeOf? (t : FieldTypes) (field : String) : Option String :=
  t.declared.get? field <|> t.params.get? field <|> t.assigned.get? field

/-- Every field about which something is known, in table order. -/
def fields (t : FieldTypes) : List String :=
  (t.declared.keys ++ t.params.keys ++ t.assigned.keys).eraseDups

end FieldTypes

end RouteLens
