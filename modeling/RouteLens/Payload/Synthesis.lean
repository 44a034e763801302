import RouteLens.Payload.Annotation
import RouteLens.Payload.Classes
import RouteLens.Payload.Scalar

/-!
# Payloads

The smallest value that a structured class accepts: its required fields, each with a sample of its
type.  Nested classes are built up to a depth; below it they are empty.
-/

namespace RouteLens

variable {edition : Nat} [CharacterNames edition]

namespace PayloadRules

/-- How a nested class becomes a value. -/
abbrev Nested := ClassDecl → Inquiry Value

/-- The class that a field refers to. -/
def referenced (f : FieldFacts) : Inquiry (Option ClassDecl) :=
  match f.classRef with
  | some n => if n.isEmpty then return none else Inquiry.findClass n
  | none => return none

/-- The first value of the enumeration that a field refers to. -/
def enumValue? (r : PayloadRules) (limit : Nat) : Option ClassDecl → Inquiry (Option Value)
  | none => return none
  | some c => do if ← r.isEnum limit c then r.firstValue? limit c else return none

/-- A sample that the facts about a field settle by themselves. -/
def settled? (f : FieldFacts) : Except Fault (Option Value) := do
  match f.format, f.kind with
  | some format, _ => return some (.text format.sample)
  | none, some .str => return some (.text f.stringSample)
  | none, some .bool => return some (.bool true)
  | none, some _ => return some (← f.numberSample)
  | none, none => return f.choices.bind List.head?

/-- Runs an inquiry a number of times. -/
def times {α : Type} (q : Inquiry α) : Nat → Inquiry (List α)
  | 0 => return []
  | n + 1 => do
    let v ← q
    return v :: (← times q n)

/-- How payloads are put together: of plain values, of lists, and of a record for each class. -/
structure Assembly (α : Type) where
  plain : Value → α
  list : List α → α
  record : Ordered α → α

/-- Payloads as values: the record of a class is a dictionary. -/
def Assembly.values : Assembly Value where
  plain v := v
  list := .list
  record parts := .dict (parts.map fun (name, v) => (.text name, v))

section Parts

variable {α : Type} (a : Assembly α)

/-- The sample of a field that refers to a class, or to nothing known. -/
def classPart (r : PayloadRules) (limit : Nat) (nested : ClassDecl → Inquiry α) (f : FieldFacts) :
    Option ClassDecl → Inquiry α
  | none => return a.plain (Fallback.sample f.typeText)
  | some c => do
    if ← r.isStructured limit c then nested c else return a.plain (Fallback.sample f.typeText)

mutual

/-- A sample of a field: a format, a scalar, a choice, an enumeration, a collection, a nested class,
and last a guess from the text of its type. -/
def partOf (r : PayloadRules) (limit : Nat) (nested : ClassDecl → Inquiry α) :
    FieldType → Inquiry α
  | .mk f element fixed => do
    match ← settled? f with
    | some v => return a.plain v
    | none =>
      let target ← referenced f
      match ← r.enumValue? limit target with
      | some v => return a.plain v
      | none =>
        if f.isArray then
          match fixed with
          | some es => return a.list (← elementParts r limit nested es)
          | none =>
            let count := max 1 (f.minLength.getD 0)
            return a.list (← times (someElement r limit nested element) count.toNat)
        else r.classPart a limit nested f target

/-- A sample of an element of unknown or known type. -/
def someElement (r : PayloadRules) (limit : Nat) (nested : ClassDecl → Inquiry α) :
    Option ElementType → Inquiry α
  | none => return a.plain (.text exampleText)
  | some e => elementPart r limit nested e

/-- A sample of an element, whose type has to be printed first. -/
def elementPart (r : PayloadRules) (limit : Nat) (nested : ClassDecl → Inquiry α) :
    ElementType → Inquiry α
  | .mk e (.ok t) => do
    let _ ← e.printed
    t.facts.checkLength
    partOf r limit nested t
  | .mk e (.error f) => do
    let _ ← e.printed
    .fail f

/-- Samples of elements, one by one. -/
def elementParts (r : PayloadRules) (limit : Nat) (nested : ClassDecl → Inquiry α) :
    List ElementType → Inquiry (List α)
  | [] => return []
  | e :: es => do
    let v ← elementPart r limit nested e
    return v :: (← elementParts r limit nested es)

end

end Parts

/-- The value of a field. -/
def valueOf (r : PayloadRules) (limit : Nat) (nested : Nested) (t : FieldType) : Inquiry Value :=
  r.partOf .values limit nested t

/-- Whether a class declares its fields required: all of them, unless it says otherwise. -/
def isTotal (c : ClassDecl) : Bool :=
  !c.keywords.any fun k => k.name == some "total" &&
    (match k.value.literal? with
      | some (.bool false) => true
      | _ => false)

/-- Whether a field has to be given. -/
def isRequired (total : Bool) (f : FieldFacts) : Bool :=
  !(f.skip || f.optional) && (total || f.requiredMarker)

section Records

variable {α : Type} (a : Assembly α)

/-- The parts of a record for the fields that have to be given. -/
def partsOf (r : PayloadRules) (limit : Nat) (nested : ClassDecl → Inquiry α) (total : Bool) :
    Ordered PropertyDecl → Inquiry (Ordered α)
  | [] => return []
  | (name, p) :: rest => do
    if Text.startsWith name "_" then partsOf r limit nested total rest
    else
      let _ ← p.typeExpr.printed
      let t ← p.fieldType
      if isRequired total t.facts then
        t.facts.checkLength
        let v ← r.partOf a limit nested t
        return (name, v) :: (← partsOf r limit nested total rest)
      else partsOf r limit nested total rest

/-- The record of a class, given what becomes of a nested class. -/
def recordWith (r : PayloadRules) (limit : Nat) (nested : ClassDecl → Inquiry α) (c : ClassDecl) :
    Inquiry α := do
  return a.record (← r.partsOf a limit nested (isTotal c) (← r.fields limit c))

/-- The record of a class at a depth.  Classes nested in it are one deeper, and empty once the
greatest depth is reached. -/
def recordAt (r : PayloadRules) (limit : Nat) (depth maxDepth : Int) (c : ClassDecl) : Inquiry α :=
  r.recordWith a limit
    (fun nested =>
      if maxDepth ≤ depth then return a.record []
      else recordAt r limit (depth + 1) maxDepth nested)
    c
termination_by (maxDepth - depth).toNat
decreasing_by omega

end Records

/-- The payload of a class at a depth. -/
def payload (r : PayloadRules) (limit : Nat) (depth maxDepth : Int) (c : ClassDecl) :
    Inquiry Value :=
  r.recordAt .values limit depth maxDepth c

end PayloadRules

/-- The payload of a class given by its name. -/
def synthesize (r : PayloadRules) (limit : Nat) (className : String) (maxDepth : Option Int) :
    Inquiry (Option Value) := do
  match ← Inquiry.findClass className with
  | none =>
    Inquiry.leave (.payloadClassMissing className)
    return none
  | some c => return some (← r.payload limit 0 (maxDepth.getD r.maxDepth) c)

/-- The payloads of the parameters of a handler that are structured classes. -/
def paramPayloads (r : PayloadRules) (limit : Nat) :
    List ParamDecl → Ordered Value → Inquiry (Ordered Value)
  | [], done => return done
  | p :: ps, done => do
    match ← p.typeName with
    | none => paramPayloads r limit ps done
    | some n =>
      match ← Inquiry.findClass n with
      | none => paramPayloads r limit ps done
      | some c =>
        if ← r.isStructured limit c then
          let v ← r.payload limit 0 r.maxDepth c
          paramPayloads r limit ps (Ordered.put p.name v done)
        else paramPayloads r limit ps done

/-- The payloads of a handler given by name.  The rules are read only once the handler is found. -/
def handlerPayloads (c : Config) (limit : Nat) (className methodName : String) :
    Inquiry (Option (Ordered Value)) := do
  match ← Inquiry.findMethod className methodName with
  | none => return none
  | some m =>
    let r ← PayloadRules.ofConfig c
    return some (← paramPayloads r limit m.paramDecls [])

end RouteLens
