import RouteLens.Config.Reading

/-!
# Quantities

Numbers that bound a field: integers of any size and floating-point numbers.  Comparison is exact,
whatever the kinds; not-a-number compares with nothing.
-/

namespace RouteLens

/-- An integer or a floating-point number. -/
inductive Quantity where
  | int (n : Int)
  | float (x : Binary64)
  deriving DecidableEq

namespace Quantity

/-- The number that a value is; truth values are none. -/
def ofValue? : Value → Option Quantity
  | .int n => some (.int n)
  | .float x => some (.float x)
  | _ => none

/-- A number as a value. -/
def toValue : Quantity → Value
  | .int n => .int n
  | .float x => .float x

/-- The exact order of two numbers. -/
def compare? : Quantity → Quantity → Option Ordering
  | .int a, .int b => some (compare a b)
  | .int a, .float y => Binary64.compareInt a y
  | .float x, .int b => (Binary64.compareInt b x).map Ordering.swap
  | .float x, .float y => Binary64.compare? x y

/-- Whether a number is below another. -/
def lt (a b : Quantity) : Bool :=
  a.compare? b == some .lt

/-- Whether two numbers are equal. -/
def eq (a b : Quantity) : Bool :=
  a.compare? b == some .eq

/-- The first number, unless the second one is below it. -/
def least (a b : Quantity) : Quantity :=
  if b.lt a then b else a

/-- The first number, unless the second one is above it. -/
def greatest (a b : Quantity) : Quantity :=
  if a.lt b then b else a

/-- An integer of a floating-point number by a rounding rule. -/
def rounded (round : Binary64 → Except Binary64.NotIntegral Int) : Quantity → Except Fault Int
  | .int n => .ok n
  | .float x =>
    match round x with
    | .ok n => .ok n
    | .error .infinite => .error .infiniteNumber
    | .error .nan => .error .undefinedNumber

/-- The greatest integer that is not above a number. -/
def floor : Quantity → Except Fault Int :=
  rounded Binary64.floor

/-- The least integer that is not below a number. -/
def ceil : Quantity → Except Fault Int :=
  rounded Binary64.ceil

/-- The integer part of a number, toward zero. -/
def truncate : Quantity → Except Fault Int :=
  rounded Binary64.truncate

/-- A number as a floating-point one. -/
def toFloat : Quantity → Except Fault Binary64
  | .int n => Value.floatOfInt n
  | .float x => .ok x

/-- The sum of a number and a whole one. -/
def shift (a : Quantity) (n : Int) : Except Fault Quantity :=
  match a with
  | .int m => .ok (.int (m + n))
  | .float x => do return .float (x.add (← Value.floatOfInt n))

/-- Half the sum of two numbers. -/
def midpoint : Quantity → Quantity → Except Fault Binary64
  | .int a, .int b => orFault .quotientTooLarge (Binary64.ofIntRatio? (a + b) 2)
  | a, b => do
    let sum := (← a.toFloat).add (← b.toFloat)
    return sum.div (.ofRatio false 2 1)

end Quantity

end RouteLens
