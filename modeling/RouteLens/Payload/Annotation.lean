import RouteLens.Payload.FieldType
import RouteLens.Source.Declaration

/-!
# Reading annotations

What an annotation says about a field.  Wrappers are looked through, a union counts as its first
member that is not the absent value, and a quoted annotation is read as an expression.  The
annotations of elements are read along with the whole.
-/

namespace RouteLens

variable {edition : Nat} [CharacterNames edition]

/-- How a quoted annotation adds to what is known. -/
abbrev QuotedReader := String → FieldType → Except Fault FieldType

/-- The scalar kind of a call that constrains a type. -/
def constrainedKind? : String → Option ScalarKind
  | "constr" => some .str
  | "conint" => some .int
  | "confloat" => some .float
  | "condecimal" => some .float
  | _ => none

/-- The calls that constrain a sequence or a set. -/
def isArrayCall (name : String) : Bool :=
  ["conlist", "conset", "confrozenset"].contains name

/-- Changes the facts by a step that may fail. -/
def FieldType.learn (t : FieldType) (f : FieldFacts → Except Fault FieldFacts) :
    Except Fault FieldType :=
  match t with
  | .mk facts element fixed => do return .mk (← f facts) element fixed

/-- Puts in the type of the elements. -/
def FieldType.withElement : FieldType → Option ElementType → FieldType
  | .mk facts element fixed, e => .mk facts (e <|> element) fixed

/-- The values of a closed list of choices; an item without a value is left out. -/
def choicesOf (args : List Expr) : List Value :=
  args.filterMap Expr.literal?

/-- How a subscripted name is read. -/
inductive Wrapper where
  | annotated
  | optional
  | required
  | classVar
  | transparent
  | union
  | literal
  | array
  | tuple
  | mapping
  | named (name : String)
  | unnamed

/-- How a subscripted name is read. -/
def Wrapper.ofName : Option String → Wrapper
  | none => .unnamed
  | some name =>
    match name with
    | "Annotated" => .annotated
    | "Optional" | "NotRequired" => .optional
    | "Required" => .required
    | "ClassVar" => .classVar
    | "Final" | "ReadOnly" => .transparent
    | "Union" => .union
    | "Literal" => .literal
    | _ =>
      if arrayTypes.contains name then .array
      else if tupleTypes.contains name then .tuple
      else if mappingTypes.contains name then .mapping
      else if name.isEmpty then .unnamed
      else .named name

/-- Whether type arguments describe a tuple of any length. -/
def isOpenTuple : List Expr → Bool
  | [_, e] => FieldFacts.isEllipsis e
  | _ => false

/-- Adds what a subscripted name says, given its arguments and how they are read: the first one, the
first one that is not the absent value, and each as the type of an element. -/
def Wrapper.read (args : List Expr) (first member : FieldType → Except Fault FieldType)
    (elements : Unit → List ElementType) (t : FieldType) : Wrapper → Except Fault FieldType
  | .annotated => do (← first t).learn fun f => args.tail.foldlM FieldFacts.applyMetadata f
  | .optional => first (t.mapFacts ({ · with optional := true }))
  | .required => first (t.mapFacts ({ · with requiredMarker := true }))
  | .classVar => .ok (t.mapFacts ({ · with skip := true }))
  | .transparent => first t
  | .union =>
    member (if args.any Expr.isNull then t.mapFacts ({ · with optional := true }) else t)
  | .literal => .ok (t.mapFacts ({ · with choices := some (choicesOf args) }))
  | .array => .ok ((t.mapFacts ({ · with isArray := true })).withElement (elements ()).head?)
  | .tuple =>
    let t := t.mapFacts ({ · with isArray := true })
    if isOpenTuple args then .ok (t.withElement (elements ()).head?)
    else
      match t with
      | .mk facts element _ => .ok (.mk facts element (some (elements ())))
  | .mapping => .ok (t.mapFacts ({ · with isMapping := true }))
  | .named n => .ok (t.mapFacts ({ · with classRef := some n }))
  | .unnamed => .ok t

mutual

/-- Adds what an annotation says to what is known. -/
def Expr.readType (quoted : QuotedReader) : Expr → FieldType → Except Fault FieldType
  | .node _ form, t => form.readType quoted t

/-- Adds what an annotation says to what is known, from its form. -/
def ExprForm.readType (quoted : QuotedReader) :
    ExprForm → FieldType → Except Fault FieldType
  | .constant (.text s _), t => quoted s t
  | .binary left .bitOr right, t =>
    let t := if left.isNull || right.isNull then t.mapFacts ({ · with optional := true }) else t
    if !left.isNull then left.readType quoted t
    else if !right.isNull then right.readType quoted t
    else .ok t
  | .call func args keywords, t =>
    let name := func.terminalName?.getD ""
    match constrainedKind? name with
    | some kind => t.learn fun f => { f with kind := some kind }.constrainAll keywords
    | none =>
      if isArrayCall name then
        let element := match args with
          | a :: _ => some (a.readElement quoted)
          | [] => none
        let t := t.mapFacts ({ · with isArray := true })
        let t := (t.withElement element).withElement (itemType? quoted keywords)
        t.learn (·.constrainAll keywords)
      else if name == "condate" then .ok (t.mapFacts ({ · with format := some .date }))
      else .ok t
  | .subscript base (.node _ (.tuple [])), t => do
    let name ← base.typeName
    return t.mapFacts ({ · with classRef := name })
  | .subscript base (.node _ (.tuple (e :: es))), t => do
    (Wrapper.ofName (← base.typeName)).read (e :: es) (e.readType quoted)
      (fun t => if e.isNull then firstMemberType quoted es t else e.readType quoted t)
      (fun _ => e.readElement quoted :: elementTypes quoted es) t
  | .subscript base e, t => do
    (Wrapper.ofName (← base.typeName)).read [e] (e.readType quoted)
      (fun t => if e.isNull then .ok t else e.readType quoted t)
      (fun _ => [e.readElement quoted]) t
  | .name id, t => .ok (t.mapFacts (·.applyTypeName id))
  | .attribute _ attr, t => .ok (t.mapFacts (·.applyTypeName attr))
  | _, t => .ok t

/-- The type of an element, from its annotation. -/
def Expr.readElement (quoted : QuotedReader) : Expr → ElementType
  | .node span form =>
    let e : Expr := .node span form
    .mk e (form.readType quoted (.unknown e.print))

/-- Adds what the first member says that is not the absent value. -/
def firstMemberType (quoted : QuotedReader) : List Expr → FieldType → Except Fault FieldType
  | [], t => .ok t
  | e :: es, t => if e.isNull then firstMemberType quoted es t else e.readType quoted t

/-- The types of elements one by one. -/
def elementTypes (quoted : QuotedReader) : List Expr → List ElementType
  | [] => []
  | e :: es => e.readElement quoted :: elementTypes quoted es

/-- The element type given by the last keyword argument that gives one. -/
def itemType? (quoted : QuotedReader) : List Keyword → Option ElementType
  | [] => none
  | .mk _ name value :: ks =>
    match itemType? quoted ks with
    | some e => some e
    | none => if name == some "item_type" then some (value.readElement quoted) else none

end

/-- Adds what a quoted annotation says.  A quoted annotation inside it is shorter than it is, so
that its length bounds the depth. -/
def readQuotedType : Nat → QuotedReader
  | 0, _, t => .ok t
  | fuel + 1, s, t => do
    match ← readQuoted s with
    | none => return t
    | some e => e.readType (readQuotedType fuel) t

/-- What an annotation says. -/
def FieldType.ofTypeExpr (e : Expr) : Except Fault FieldType :=
  e.readType (fun s => readQuotedType (s.length + 1) s) (.unknown e.print)

/-- What a field declaration says: its annotation, and its value.  A value makes the field optional,
unless it is a placeholder or a field declaration of its own. -/
def PropertyDecl.fieldType (p : PropertyDecl) : Except Fault FieldType := do
  let t ← FieldType.ofTypeExpr p.typeExpr
  match p.value with
  | none => return t
  | some v =>
    if FieldFacts.isEllipsis v then return t
    match v with
    | .node _ (.call func args keywords) =>
      if FieldFacts.isFieldCall func.terminalName? then
        t.learn (·.declareField args keywords)
      else return t.mapFacts ({ · with optional := true })
    | _ => return t.mapFacts ({ · with optional := true })

end RouteLens
