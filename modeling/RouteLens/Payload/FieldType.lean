import RouteLens.Payload.Quantity
import RouteLens.Tree.Literal
import RouteLens.Tree.Naming
import RouteLens.Tree.Printer

/-!
# Field types

What a field declaration says about the values of the field: its kind, its bounds, whether it may
be left out, and what its elements are.  Constraints are given as keyword arguments, by themselves
or in the metadata of an annotation, and each one narrows what is known.
-/

namespace RouteLens

/-- A text format with a fixed sample. -/
inductive TextFormat where
  | email
  | uuid
  | datetime
  | date
  | time
  | url
  deriving DecidableEq

namespace TextFormat

/-- The name of a format. -/
def name : TextFormat → String
  | .email => "email"
  | .uuid => "uuid"
  | .datetime => "datetime"
  | .date => "date"
  | .time => "time"
  | .url => "url"

/-- A text of the format. -/
def sample : TextFormat → String
  | .email => "user@example.com"
  | .uuid => "00000000-0000-4000-8000-000000000000"
  | .datetime => "2020-01-01T00:00:00.000Z"
  | .date => "2020-01-01"
  | .time => "00:00:00"
  | .url => "https://example.com"

/-- The format of a type name. -/
def ofTypeName? : String → Option TextFormat
  | "EmailStr" | "NameEmail" => some .email
  | "UUID" | "UUID1" | "UUID3" | "UUID4" | "UUID5" => some .uuid
  | "datetime" | "AwareDatetime" | "NaiveDatetime" | "PastDatetime" | "FutureDatetime" =>
    some .datetime
  | "date" | "PastDate" | "FutureDate" => some .date
  | "time" => some .time
  | "HttpUrl" | "AnyUrl" | "AnyHttpUrl" | "Url" => some .url
  | _ => none

end TextFormat

/-- The kind of a scalar. -/
inductive ScalarKind where
  | str
  | int
  | float
  | bool
  deriving DecidableEq

namespace ScalarKind

/-- The name of a kind. -/
def name : ScalarKind → String
  | .str => "str"
  | .int => "int"
  | .float => "float"
  | .bool => "bool"

end ScalarKind

/-- A scalar type: its kind and the bounds that its name implies. -/
structure ScalarType where
  kind : ScalarKind
  minimum : Option Int := none
  maximum : Option Int := none

/-- The scalar types by name. -/
def scalarTypes : List (String × ScalarType) :=
  [("str", { kind := .str }), ("StrictStr", { kind := .str }),
   ("int", { kind := .int }), ("StrictInt", { kind := .int }),
   ("PositiveInt", { kind := .int, minimum := some 1 }),
   ("NegativeInt", { kind := .int, maximum := some (-1) }),
   ("NonNegativeInt", { kind := .int, minimum := some 0 }),
   ("NonPositiveInt", { kind := .int, maximum := some 0 }),
   ("float", { kind := .float }), ("StrictFloat", { kind := .float }),
   ("Decimal", { kind := .float }),
   ("PositiveFloat", { kind := .float, minimum := some 1 }),
   ("NegativeFloat", { kind := .float, maximum := some (-1) }),
   ("NonNegativeFloat", { kind := .float, minimum := some 0 }),
   ("NonPositiveFloat", { kind := .float, maximum := some 0 }),
   ("bool", { kind := .bool }), ("StrictBool", { kind := .bool })]

/-- The types of sequences and sets. -/
def arrayTypes : List String :=
  ["list", "List", "set", "Set", "frozenset", "FrozenSet", "Sequence", "MutableSequence",
    "Iterable", "Collection", "AbstractSet"]

/-- The types of tuples. -/
def tupleTypes : List String :=
  ["tuple", "Tuple"]

/-- The types of mappings. -/
def mappingTypes : List String :=
  ["dict", "Dict", "Mapping", "MutableMapping", "DefaultDict", "OrderedDict"]

/-- What is known about a field, its elements apart. -/
structure FieldFacts where
  optional : Bool := false
  requiredMarker : Bool := false
  skip : Bool := false
  format : Option TextFormat := none
  kind : Option ScalarKind := none
  minLength : Option Int := none
  maxLength : Option Int := none
  minimum : Option Quantity := none
  maximum : Option Quantity := none
  minExclusive : Bool := false
  maxExclusive : Bool := false
  choices : Option (List Value) := none
  isArray : Bool := false
  isMapping : Bool := false
  classRef : Option String := none
  typeText : String := ""

/-- The sides of a range of numbers. -/
inductive Side where
  | lower
  | upper

/-- Whether a bound of a side asks for more than another one. -/
def Side.exceeds : Side → Quantity → Quantity → Bool
  | .lower, q, m => m.lt q
  | .upper, q, m => q.lt m

mutual

/-- What is known about a field: facts, the type of its elements, and the types of its elements one
by one if their number is fixed. -/
inductive FieldType where
  | mk (facts : FieldFacts) (element : Option ElementType) (fixed : Option (List ElementType))

/-- The type of an element: the annotation, and what is known from it. -/
inductive ElementType where
  | mk (typeExpr : Expr) (known : Except Fault FieldType)

end

namespace ElementType

/-- The annotation of an element. -/
def typeExpr : ElementType → Expr
  | .mk e _ => e

end ElementType

namespace FieldType

/-- What is known, the elements apart. -/
def facts : FieldType → FieldFacts
  | .mk f _ _ => f

/-- The type of the elements. -/
def element? : FieldType → Option ElementType
  | .mk _ e _ => e

/-- The types of the elements one by one. -/
def fixed? : FieldType → Option (List ElementType)
  | .mk _ _ f => f

/-- Nothing known but the text of the annotation. -/
def unknown (typeText : String) : FieldType :=
  .mk { typeText } none none

/-- Changes the facts. -/
def mapFacts (f : FieldFacts → FieldFacts) : FieldType → FieldType
  | .mk facts element fixed => .mk (f facts) element fixed

end FieldType

namespace FieldFacts

/-- The bound of a side. -/
def bound? (t : FieldFacts) : Side → Option Quantity
  | .lower => t.minimum
  | .upper => t.maximum

/-- Whether the bound of a side is left out itself. -/
def isExclusive (t : FieldFacts) : Side → Bool
  | .lower => t.minExclusive
  | .upper => t.maxExclusive

/-- Puts in the bound of a side. -/
def setBound (t : FieldFacts) (bound : Quantity) (exclusive : Bool) : Side → FieldFacts
  | .lower => { t with minimum := some bound, minExclusive := exclusive }
  | .upper => { t with maximum := some bound, maxExclusive := exclusive }

/-- Learns a bound of a side.  Of two bounds the one that asks for more holds; of two equal ones,
the exclusive one. -/
def tighten (t : FieldFacts) (side : Side) (v : Value) (exclusive : Bool) : FieldFacts :=
  match Quantity.ofValue? v, t.bound? side with
  | none, _ => t
  | some q, none => t.setBound q exclusive side
  | some q, some m =>
    if side.exceeds q m then t.setBound q exclusive side
    else if q.eq m then t.setBound m (t.isExclusive side || exclusive) side
    else t

/-- A bound changes the bound of its side only, if anything. -/
theorem tighten_eq (t : FieldFacts) (side : Side) (v : Value) (e : Bool) :
    t.tighten side v e = t ∨ ∃ q x, t.tighten side v e = t.setBound q x side := by
  unfold tighten
  split
  · exact .inl rfl
  · exact .inr ⟨_, _, rfl⟩
  · split
    · exact .inr ⟨_, _, rfl⟩
    · split
      · exact .inr ⟨_, _, rfl⟩
      · exact .inl rfl

/-- What no bound changes, learning a bound does not change. -/
theorem apply_tighten {α : Type} {f : FieldFacts → α}
    (h : ∀ u q x side, f (setBound u q x side) = f u) (t : FieldFacts) (side : Side) (v : Value)
    (e : Bool) : f (t.tighten side v e) = f t := by
  rcases t.tighten_eq side v e with heq | ⟨q, x, heq⟩ <;> rw [heq]
  exact h t q x side

/-- Learns a lower bound. -/
def raiseMinimum (t : FieldFacts) (v : Value) (exclusive : Bool) : FieldFacts :=
  t.tighten .lower v exclusive

/-- Learns an upper bound. -/
def lowerMaximum (t : FieldFacts) (v : Value) (exclusive : Bool) : FieldFacts :=
  t.tighten .upper v exclusive

/-- A length: the integer part of a number; anything else is no length. -/
def lengthOf? (v : Option Value) : Except Fault (Option Int) :=
  match v.bind Quantity.ofValue? with
  | none => .ok none
  | some q => q.truncate.map some

/-- Learns from one keyword argument. -/
def constrain (t : FieldFacts) (name : String) (value : Expr) : Except Fault FieldFacts := do
  match value.literal? with
  | none => return t
  | some v =>
    match name with
    | "min_length" | "min_items" =>
      match ← lengthOf? v with
      | none => return t
      | some n => return { t with minLength := some (max (t.minLength.getD 0) n) }
    | "max_length" | "max_items" =>
      match ← lengthOf? v with
      | none => return t
      | some n => return { t with maxLength := some (t.maxLength.elim n (min · n)) }
    | "ge" => return t.raiseMinimum v false
    | "gt" => return t.raiseMinimum v true
    | "le" => return t.lowerMaximum v false
    | "lt" => return t.lowerMaximum v true
    | _ => return t

/-- Learns from keyword arguments, in order. -/
def constrainAll (t : FieldFacts) (keywords : List Keyword) : Except Fault FieldFacts :=
  keywords.foldlM (fun t k =>
    match k.name with
    | none => return t
    | some n => t.constrain n k.value) t

/-- The placeholder for a value that has to be given. -/
def isEllipsis : Expr → Bool
  | .node _ (.constant .ellipsis) => true
  | _ => false

/-- Learns from one keyword argument of a field declaration: a default makes the field optional,
and a field that is not part of the constructor is skipped. -/
def declare (t : FieldFacts) (k : Keyword) : FieldFacts :=
  match k.name with
  | some "default" | some "default_factory" =>
    if isEllipsis k.value then t else { t with optional := true }
  | some "init" =>
    match k.value.literal? with
    | some (.bool false) => { t with skip := true }
    | _ => t
  | _ => t

/-- Learns from the arguments of a field declaration that have no name: a default makes the field
optional. -/
def declareDefault (t : FieldFacts) : List Expr → FieldFacts
  | a :: _ => if isEllipsis a then t else { t with optional := true }
  | [] => t

/-- Learns from the arguments of a field declaration. -/
def declareField (t : FieldFacts) (args : List Expr) (keywords : List Keyword) :
    Except Fault FieldFacts :=
  (keywords.foldl declare (t.declareDefault args)).constrainAll keywords

/-- The calls that declare a field. -/
def isFieldCall (name : Option String) : Bool :=
  name == some "Field" || name == some "field"

/-- The keyword that a bound marker stands for. -/
def boundKeyword? : String → Option String
  | "Ge" => some "ge"
  | "Gt" => some "gt"
  | "Le" => some "le"
  | "Lt" => some "lt"
  | _ => none

/-- Learns from a metadata entry that is a call, given its name. -/
def applyMarker (t : FieldFacts) (name : String) (args : List Expr) (keywords : List Keyword) :
    Except Fault FieldFacts := do
  match name, args with
  | "MinLen", a :: _ => return { t with minLength := ← lengthOf? a.literal? }
  | "Len", a :: rest =>
    let t := { t with minLength := ← lengthOf? a.literal? }
    match rest with
    | b :: _ => return { t with maxLength := ← lengthOf? b.literal? }
    | [] => return t
  | "MaxLen", a :: _ => return { t with maxLength := ← lengthOf? a.literal? }
  | _, a :: _ =>
    match boundKeyword? name with
    | some keyword => t.constrain keyword a
    | none => t.constrainAll keywords
  | _, [] => t.constrainAll keywords

/-- Learns from one metadata entry of an annotation. -/
def applyMetadata (t : FieldFacts) : Expr → Except Fault FieldFacts
  | .node _ (.call func args keywords) =>
    let name := func.terminalName?
    if isFieldCall name then t.declareField args keywords
    else t.applyMarker (name.getD "") args keywords
  | _ => .ok t

/-- Learns from the name of a type. -/
def applyTypeName (t : FieldFacts) (name : String) : FieldFacts :=
  match TextFormat.ofTypeName? name, scalarTypes.lookup name with
  | some f, _ => { t with format := some f }
  | none, some s =>
    let t := { t with kind := some s.kind }
    let t := match s.minimum with
      | some n => t.raiseMinimum (.int n) false
      | none => t
    match s.maximum with
    | some n => t.lowerMaximum (.int n) false
    | none => t
  | none, none =>
    if arrayTypes.contains name || tupleTypes.contains name then { t with isArray := true }
    else if mappingTypes.contains name then { t with isMapping := true }
    else { t with classRef := some name }

end FieldFacts

end RouteLens
