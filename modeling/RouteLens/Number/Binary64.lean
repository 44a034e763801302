/-!
# Binary floating-point numbers

Numbers `± m · 2 ^ (e - 1074)` with a mantissa of at most 53 bits, the two infinities and one
not-a-number.  Every operation computes the exact result in integers and rounds it once, to the
nearest representable number and to the even mantissa on a tie.

The triple of a finite number is canonical by its type: a number has one representation, so that
equality of representations is equality of numbers, the two zeros apart.
-/

namespace RouteLens

/-- A mantissa and a scale that are fully normalized: only the least scale has short mantissas. -/
def IsCanonical (m e : Nat) : Prop :=
  m < 1 <<< 53 ∧ e ≤ 2045 ∧ (e = 0 ∨ 1 <<< 52 ≤ m)

instance (m e : Nat) : Decidable (IsCanonical m e) :=
  inferInstanceAs (Decidable (_ ∧ _ ∧ (_ ∨ _)))

/-- A binary floating-point number of 64 bits. -/
inductive Binary64 where
  | nan
  | infinite (negative : Bool)
  | finite (negative : Bool) (m e : Nat) (canonical : IsCanonical m e)
  deriving DecidableEq

namespace Binary64

/-- The number `± m · 2 ^ (e - 1074)`, infinite when the scale is too large. -/
def ofParts (negative : Bool) (m e : Nat) : Binary64 :=
  if h : IsCanonical m e then .finite negative m e h else .infinite negative

/-- Zero of either sign. -/
def zero (negative : Bool) : Binary64 :=
  .finite negative 0 0 (by decide)

/-- The number one. -/
def one : Binary64 :=
  .finite false (1 <<< 52) 1022 (by decide)

/-- How many units make one; the unit is the least positive number. -/
def unitsInOne : Nat :=
  1 <<< 1074

/-- The nearest natural number to `n / d`, the even one on a tie. -/
def roundDiv (n d : Nat) : Nat :=
  let q := n / d
  let r := n % d
  if d < 2 * r ∨ (d = 2 * r ∧ q % 2 = 1) then q + 1 else q

/-- The number nearest to `± n / d`; `d` is positive. -/
def ofRatio (negative : Bool) (n d : Nat) : Binary64 :=
  let scaled := n * unitsInOne
  let e := (scaled / d).log2 - 52
  let m := roundDiv scaled (d <<< e)
  if m = 1 <<< 53 then ofParts negative (1 <<< 52) (e + 1) else ofParts negative m e

/-- The sign bit; not-a-number counts as positive. -/
def isNegative : Binary64 → Bool
  | .nan => false
  | .infinite s => s
  | .finite s _ _ _ => s

/-- Whether the number is finite. -/
def isFinite : Binary64 → Bool
  | .finite .. => true
  | _ => false

/-- A zero of either sign. -/
def isZero : Binary64 → Bool
  | .finite _ 0 _ _ => true
  | _ => false

/-- The value of a finite number in units. -/
def units : Binary64 → Int
  | .finite s m e _ => if s then -((m <<< e : Nat) : Int) else ((m <<< e : Nat) : Int)
  | _ => 0

/-- The number nearest to some units; an exact zero takes the given sign. -/
def ofUnits (n : Int) (zeroSign : Bool) : Binary64 :=
  if n = 0 then zero zeroSign else ofRatio (decide (n < 0)) n.natAbs unitsInOne

/-- The opposite number. -/
def neg : Binary64 → Binary64
  | .nan => .nan
  | .infinite s => .infinite (!s)
  | .finite s m e h => .finite (!s) m e h

/-- The sum.  Infinities of opposite signs have none. -/
def add : Binary64 → Binary64 → Binary64
  | .nan, _ => .nan
  | _, .nan => .nan
  | .infinite s, .infinite t => if s = t then .infinite s else .nan
  | .infinite s, _ => .infinite s
  | _, .infinite t => .infinite t
  | x@(.finite s _ _ _), y@(.finite t _ _ _) => ofUnits (x.units + y.units) (s && t)

/-- The difference. -/
def sub (x y : Binary64) : Binary64 :=
  add x y.neg

/-- The product.  Zero times infinity has none. -/
def mul : Binary64 → Binary64 → Binary64
  | .nan, _ => .nan
  | _, .nan => .nan
  | .infinite s, .infinite t => .infinite (s != t)
  | .infinite s, .finite t m _ _ => if m = 0 then .nan else .infinite (s != t)
  | .finite s m _ _, .infinite t => if m = 0 then .nan else .infinite (s != t)
  | .finite s m e _, .finite t n f _ =>
    if m * n = 0 then zero (s != t) else ofRatio (s != t) ((m * n) <<< (e + f)) (1 <<< 2148)

/-- The quotient, for a divisor that is not zero. -/
def div : Binary64 → Binary64 → Binary64
  | .nan, _ => .nan
  | _, .nan => .nan
  | .infinite _, .infinite _ => .nan
  | .infinite s, .finite t _ _ _ => .infinite (s != t)
  | .finite s _ _ _, .infinite t => zero (s != t)
  | .finite s m e _, .finite t n f _ =>
    if n = 0 then (if m = 0 then .nan else .infinite (s != t))
    else if m = 0 then zero (s != t)
    else ofRatio (s != t) (m <<< e) (n <<< f)

/-- The absolute value. -/
def abs : Binary64 → Binary64
  | .nan => .nan
  | .infinite _ => .infinite false
  | .finite _ m e h => .finite false m e h

/-- How an integer compares with a floating-point number, exactly; `none` beside not-a-number. -/
def compareInt (n : Int) : Binary64 → Option Ordering
  | .nan => none
  | .infinite s => some (if s then .gt else .lt)
  | x@(.finite ..) => some (compare (n * unitsInOne) x.units)

/-- How two numbers compare; `none` when one is not a number.  The two zeros are equal. -/
def compare? : Binary64 → Binary64 → Option Ordering
  | .nan, _ => none
  | _, .nan => none
  | .infinite s, .infinite t => some (if s = t then .eq else if s then .lt else .gt)
  | .infinite s, _ => some (if s then .lt else .gt)
  | _, .infinite t => some (if t then .gt else .lt)
  | x, y => some (compare x.units y.units)

/-- The number nearest to an integer; `none` when that would be infinite. -/
def ofInt? (n : Int) : Option Binary64 :=
  let x := ofRatio (decide (n < 0)) n.natAbs 1
  if x.isFinite then some x else none

/-- The quotient of two integers, rounded once; `none` when it would be infinite.  The divisor is
not zero. -/
def ofIntRatio? (n d : Int) : Option Binary64 :=
  if n = 0 then some (zero (decide (d < 0)))
  else
    let x := ofRatio (decide (n < 0) != decide (d < 0)) n.natAbs d.natAbs
    if x.isFinite then some x else none

/-- Why a number has no integer part. -/
inductive NotIntegral where
  | infinite
  | nan
  deriving DecidableEq

/-- Applies an integer division to the exact value of a finite number. -/
def toIntWith (divide : Int → Int → Int) : Binary64 → Except NotIntegral Int
  | .nan => .error .nan
  | .infinite _ => .error .infinite
  | x@(.finite ..) => .ok (divide x.units unitsInOne)

/-- The integer part, toward zero. -/
def truncate (x : Binary64) : Except NotIntegral Int :=
  x.toIntWith Int.tdiv

/-- The greatest integer not above the number. -/
def floor (x : Binary64) : Except NotIntegral Int :=
  x.toIntWith Int.fdiv

/-- The least integer not below the number. -/
def ceil (x : Binary64) : Except NotIntegral Int :=
  x.toIntWith fun a b => -(Int.fdiv (-a) b)

end Binary64

end RouteLens
