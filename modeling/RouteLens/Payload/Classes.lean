import RouteLens.Inquiry
import RouteLens.Config.Reading
import RouteLens.Ordered
import RouteLens.Tree.Literal

/-!
# Structured classes and enumerations

Which classes of a project are enumerations, which ones have fields, and what the fields are, the
inherited ones included.  A class is visited once, however often it is a base; `limit` bounds the
depth of the visits and has to be at least the number of classes in reach.
-/

namespace RouteLens

variable {edition : Nat} [CharacterNames edition]

/-- How payloads are built. -/
structure PayloadRules where
  maxDepth : Int
  schemaBases : List String
  enumBases : List String

namespace PayloadRules

/-- The rules that a configuration sets, with the defaults for absent entries. -/
def ofConfig (c : Config) : Except Fault PayloadRules := do
  let es ← c.overlaid "payload" Config.payloadDefaults
  return {
    maxDepth := ← (← es.need "max_depth").toInteger
    schemaBases := ← (← es.need "schema_base_classes").names
    enumBases := ← (← es.need "enum_base_classes").names }

/-- The classes already visited. -/
abbrev Visited := List (Path × Nat)

/-- The classes that some bases name, a class itself apart. -/
def findBases (c : ClassDecl) : List String → Inquiry (List ClassDecl)
  | [] => return []
  | n :: ns => do
    let base ← Inquiry.findClass n
    let rest ← findBases c ns
    match base with
    | some b => return if b.key = c.key then rest else b :: rest
    | none => return rest

/-- The bases of a class that the project declares.  Schema and enumeration bases are not looked
up. -/
def projectBases (r : PayloadRules) (c : ClassDecl) : Inquiry (List ClassDecl) := do
  let names ← c.baseNames
  findBases c (names.filter fun n => !(r.schemaBases.contains n || r.enumBases.contains n))

/-- Whether a check holds of one of some classes; what was visited is handed on. -/
def anyVisited (check : ClassDecl → Visited → Inquiry (Bool × Visited)) :
    List ClassDecl → Visited → Inquiry (Bool × Visited)
  | [], seen => return (false, seen)
  | c :: cs, seen => do
    let (found, seen) ← check c seen
    if found then return (true, seen) else anyVisited check cs seen

/-- Whether a class has one of the named bases, directly or through its bases. -/
def hasBaseFrom (r : PayloadRules) (names : List String) :
    Nat → ClassDecl → Visited → Inquiry (Bool × Visited)
  | 0, _, seen => return (false, seen)
  | limit + 1, c, seen => do
    if seen.contains c.key then return (false, seen)
    let seen := c.key :: seen
    if (← c.baseNames).any names.contains then return (true, seen)
    anyVisited (hasBaseFrom r names limit) (← r.projectBases c) seen

/-- Whether a class has one of the named bases. -/
def hasBase (r : PayloadRules) (limit : Nat) (names : List String) (c : ClassDecl) :
    Inquiry Bool := do
  return (← r.hasBaseFrom names limit c []).1

/-- Whether a class is an enumeration. -/
def isEnum (r : PayloadRules) (limit : Nat) (c : ClassDecl) : Inquiry Bool :=
  r.hasBase limit r.enumBases c

/-- Whether a class has fields: by its annotated attributes, its decorator or its bases. -/
def isStructured (r : PayloadRules) (limit : Nat) (c : ClassDecl) : Inquiry Bool := do
  if ← r.isEnum limit c then return false
  if c.decoratorNames.contains "dataclass" || !c.properties.isEmpty then return true
  r.hasBase limit r.schemaBases c

/-- The name and the value of a member of an enumeration. -/
def enumMember? : Stmt → Option (String × Expr)
  | .node _ (.assign [.node _ (.name id)] value) =>
    if Text.startsWith id "_" then none else some (id, value)
  | _ => none

/-- The value of a member: a name for an automatic text member, the first item of a non-empty list,
and the name of the member if its value is not spelled out. -/
def memberValue (isText : Bool) (name : String) (value : Expr) : Value :=
  let isAuto := match value with
    | .node _ (.call func _ _) => func.terminalName? == some "auto"
    | _ => false
  if isAuto then (if isText then .text (Text.toLower name) else .int 1)
  else
    match value.literal? with
    | some (.list (v :: _)) => v
    | some v => v
    | none => .text name

/-- The value of the first member of an enumeration. -/
def firstValue? (r : PayloadRules) (limit : Nat) (c : ClassDecl) : Inquiry (Option Value) := do
  let isText ← r.hasBase limit ["StrEnum"] c
  return (c.body.findSome? enumMember?).map fun m => memberValue isText m.1 m.2

/-- Merges the fields of some bases, in order; what was visited is handed on. -/
def mergeVisited (fields : ClassDecl → Visited → Inquiry (Ordered PropertyDecl × Visited)) :
    List ClassDecl → Ordered PropertyDecl → Visited → Inquiry (Ordered PropertyDecl × Visited)
  | [], done, seen => return (done, seen)
  | c :: cs, done, seen => do
    let (found, seen) ← fields c seen
    mergeVisited fields cs (done.overlay found) seen

/-- The fields of a class, inherited ones first; a later declaration takes the place of an earlier
one of the same name. -/
def fieldsFrom (r : PayloadRules) :
    Nat → ClassDecl → Visited → Inquiry (Ordered PropertyDecl × Visited)
  | 0, _, seen => return ([], seen)
  | limit + 1, c, seen => do
    if seen.contains c.key then return ([], seen)
    let (inherited, seen) ←
      mergeVisited (fieldsFrom r limit) (← r.projectBases c) [] (c.key :: seen)
    return (inherited.overlay (c.properties.map fun p => (p.name, p)), seen)

/-- The fields of a class. -/
def fields (r : PayloadRules) (limit : Nat) (c : ClassDecl) : Inquiry (Ordered PropertyDecl) := do
  return (← r.fieldsFrom limit c []).1

end PayloadRules

end RouteLens
