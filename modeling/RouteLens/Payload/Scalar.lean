import RouteLens.Payload.FieldType

/-!
# Scalar samples

The sample of a scalar field: a text of an admissible length, or the number one where the bounds
allow it and the nearest admissible number elsewhere.
-/

namespace RouteLens

/-- The text that stands for any text. -/
def exampleText : String := "example"

/-- A number given by bounds: one of them, a whole number away from it, or halfway between two. -/
inductive Point where
  | bound (q : Quantity)
  | beside (q : Quantity) (n : Int)
  | midpoint (a b : Quantity)
  deriving DecidableEq

/-- A point as a floating-point number; every operation on the way rounds. -/
def Point.toFloat : Point → Except Fault Binary64
  | .bound q => q.toFloat
  | .beside q n => do (← q.shift n).toFloat
  | .midpoint a b => a.midpoint b

/-- The outermost integer that lies past a bound of a side. -/
def Side.pastInt : Side → Quantity → Except Fault Int
  | .lower, q => do return (← q.floor) + 1
  | .upper, q => do return (← q.ceil) - 1

/-- The outermost integer that lies at a bound of a side or past it. -/
def Side.atInt : Side → Quantity → Except Fault Int
  | .lower, q => q.ceil
  | .upper, q => q.floor

namespace FieldFacts

/-- The length of a sample text that has to have a least length. -/
def sampleLength (least : Int) (most : Option Int) : Int :=
  let length := max least 1
  match most with
  | some m => if least ≤ m then min length m else length
  | none => length

/-- A text within the declared lengths. -/
def stringSample (t : FieldFacts) : String :=
  match t.minLength, t.maxLength with
  | some least, most => String.ofList (List.replicate (sampleLength least most).toNat 'a')
  | none, some most => String.ofList (exampleText.toList.take most.toNat)
  | none, none => exampleText

/-- Whether the sample, if it is a text of a least length, is not too long for a text. -/
def checkLength (t : FieldFacts) : Except Fault Unit :=
  match t.format, t.kind, t.minLength with
  | none, some .str, some least =>
    if Value.maxLength < sampleLength least t.maxLength then .error .lengthTooLarge else .ok ()
  | _, _, _ => .ok ()

/-- Whether a number is within the bound of a side. -/
def admitsOn (t : FieldFacts) (q : Quantity) (side : Side) : Bool :=
  (t.bound? side).all fun m => !(side.exceeds m q || (t.isExclusive side && q.eq m))

/-- Whether a number is within the declared bounds. -/
def admits (t : FieldFacts) (q : Quantity) : Bool :=
  t.admitsOn q .lower && t.admitsOn q .upper

/-- The outermost integer that the bound of a side admits. -/
def outermostInt? (t : FieldFacts) (side : Side) : Except Fault (Option Int) := do
  match t.bound? side with
  | none => return none
  | some m =>
    if t.isExclusive side then return some (← side.pastInt m) else return some (← side.atInt m)

/-- One, moved below the upper bound and then above the lower one. -/
def clampOne (least greatest : Option Int) : Int :=
  let below := match greatest with
    | some h => min 1 h
    | none => 1
  match least with
  | some l => max below l
  | none => below

/-- An integer within the declared bounds; the lower one wins a conflict. -/
def intSample (t : FieldFacts) : Except Fault Int := do
  let least ← t.outermostInt? .lower
  let greatest ← t.outermostInt? .upper
  return clampOne least greatest

/-- One, moved below the upper bound and then above the lower one, bounds included. -/
def clampUnit (t : FieldFacts) : Quantity :=
  let one : Quantity := .float .one
  let below := match t.maximum with
    | some h => one.least h
    | none => one
  match t.minimum with
  | some l => below.greatest l
  | none => below

/-- The point within the declared bounds that a sample is taken at.  Between two bounds that one
cannot meet it is their midpoint; beside a single open one it is one step past it. -/
def floatPoint (t : FieldFacts) : Point :=
  if t.admits t.clampUnit then .bound t.clampUnit
  else
    match t.minimum, t.maximum with
    | some lo, some hi =>
      if lo.lt hi then .midpoint lo hi
      else if t.minExclusive then .beside lo 1 else .bound lo
    | some lo, none => if t.minExclusive then .beside lo 1 else .bound lo
    | none, some hi => .beside hi (-1)
    | none, none => .bound (.float .one)

/-- A floating-point number within the declared bounds. -/
def floatSample (t : FieldFacts) : Except Fault Binary64 :=
  t.floatPoint.toFloat

/-- A number within the declared bounds, an integer if the field is one. -/
def numberSample (t : FieldFacts) : Except Fault Value := do
  if t.kind = some .int then return .int (← t.intSample) else return .float (← t.floatSample)

end FieldFacts

namespace Fallback

/-- A letter or an underscore of the basic alphabet. -/
def startsName (c : Char) : Bool :=
  c.isAlpha || c == '_'

/-- Splits a text into its names of the basic alphabet; `word` is the name being read, backwards. -/
def namesFrom (word : List Char) : List Char → List String
  | [] => if word.isEmpty then [] else [String.ofList word.reverse]
  | c :: cs =>
    if startsName c || (!word.isEmpty && c.isDigit) then namesFrom (c :: word) cs
    else if word.isEmpty then namesFrom [] cs
    else String.ofList word.reverse :: namesFrom [] cs

/-- The names in a text. -/
def names (s : String) : List String :=
  namesFrom [] s.toList

/-- The names of number types. -/
def numberTypes : List String :=
  (scalarTypes.filter fun e => e.2.kind = .int || e.2.kind = .float).map Prod.fst

/-- A sample guessed from the names in the text of a type. -/
def sample (typeText : String) : Value :=
  let found := names typeText
  let mentions (types : List String) : Bool := found.any types.contains
  if mentions ("defaultdict" :: mappingTypes) then .dict []
  else if mentions (tupleTypes ++ arrayTypes) then .list []
  else if mentions ["bool", "StrictBool"] then .bool true
  else if mentions numberTypes then .int 1
  else .text exampleText

end Fallback

end RouteLens
