import RouteLens.Number.Binary64

/-!
# Decimal text of floating-point numbers

Writing chooses the fewest digits that read back to the same number, and of those the digits
nearest to it.  The form is positional for exponents from -4 to 15 and scientific outside; a whole
number keeps one zero after the point.
-/

namespace RouteLens.Binary64

/-- The decimal digits of a number. -/
def digitsOf (n : Nat) : String :=
  String.ofList (Nat.toDigits 10 n)

/-- The exponent `p` with `10 ^ p ≤ n / 2 ^ 1074 < 10 ^ (p + 1)`, for positive `n`. -/
def decimalExponent (n : Nat) : Int :=
  let guess := Int.fdiv (((n.log2 : Int) - 1074) * 30103) 100000
  let atLeast (p : Int) : Bool :=
    if 0 ≤ p then decide (Nat.pow 10 p.toNat * unitsInOne ≤ n)
    else decide (unitsInOne ≤ n * Nat.pow 10 (-p).toNat)
  if atLeast (guess + 1) then guess + 1
  else if atLeast guess then guess
  else guess - 1

/-- The points `d · 10 ^ k` of a decimal grid, times `2 ^ 1076`, as an exact ratio. -/
def gridPoint (d : Nat) (k : Int) : Nat × Nat :=
  if 0 ≤ k then ((d * Nat.pow 10 k.toNat) <<< 1076, 1) else (d <<< 1076, Nat.pow 10 (-k).toNat)

/-- The interval of exact values, times `2 ^ 1076`, that round to the number `m · 2 ^ (e - 1074)`,
and whether its ends belong to it. -/
def roundingInterval (m e : Nat) : Nat × Nat × Bool :=
  let low := if m = 1 <<< 52 ∧ 0 < e then (4 * m - 1) <<< e else (4 * m - 2) <<< e
  (low, (4 * m + 2) <<< e, m % 2 = 0)

/-- Whether a point of a grid rounds to the number with the given interval. -/
def inInterval (i : Nat × Nat × Bool) (p : Nat × Nat) : Bool :=
  if i.2.2 then decide (i.1 * p.2 ≤ p.1) && decide (p.1 ≤ i.2.1 * p.2)
  else decide (i.1 * p.2 < p.1) && decide (p.1 < i.2.1 * p.2)

/-- The neighbour of the number on the grid `10 ^ k` that reads back, the nearer one if both do. -/
def gridNeighbour? (m e : Nat) (k : Int) : Option Nat :=
  let exact := (m <<< e) * 4
  let unit := gridPoint 1 k
  let below := exact * unit.2 / unit.1
  let interval := roundingInterval m e
  let lowOk := inInterval interval (gridPoint below k)
  let highOk := inInterval interval (gridPoint (below + 1) k)
  let rest := exact * unit.2 - below * unit.1
  match lowOk, highOk with
  | true, true =>
    if 2 * rest < unit.1 ∨ (2 * rest = unit.1 ∧ below % 2 = 0) then some below
    else some (below + 1)
  | true, false => some below
  | false, true => some (below + 1)
  | false, false => none

/-- The first grid, from coarse to fine, on which some neighbour reads back. -/
def shortestFrom (m e : Nat) (k : Int) : Nat → Nat × Int
  | 0 => (m, k)
  | n + 1 =>
    match gridNeighbour? m e k with
    | some d => (d, k)
    | none => shortestFrom m e (k - 1) n

/-- The shortest decimal `d · 10 ^ k` that reads back to `m · 2 ^ (e - 1074)`. -/
def shortest (m e : Nat) : Nat × Int :=
  shortestFrom m e (decimalExponent (m <<< e)) 17

/-- Digits without the zeros at their end. -/
def dropFinalZeros (s : List Char) : List Char :=
  (s.reverse.dropWhile (· == '0')).reverse

/-- An exponent with its sign and at least two digits. -/
def exponentText (p : Int) : String :=
  let digits := digitsOf p.natAbs
  (if p < 0 then "-" else "+") ++ (if digits.length < 2 then "0" ++ digits else digits)

/-- The text of the positive number `d · 10 ^ k`. -/
def decimalText (d : Nat) (k : Int) : String :=
  let all := (digitsOf d).toList
  let p : Int := k + all.length - 1
  let digits := match dropFinalZeros all with
    | [] => ['0']
    | ds => ds
  if p < -4 ∨ 16 ≤ p then
    let mantissa := match digits with
      | [] => ""
      | [x] => String.ofList [x]
      | x :: xs => String.ofList (x :: '.' :: xs)
    mantissa ++ "e" ++ exponentText p
  else if p < 0 then
    "0." ++ String.ofList (List.replicate (p.natAbs - 1) '0' ++ digits)
  else
    let n := p.toNat + 1
    let whole := digits.take n ++ List.replicate (n - digits.length) '0'
    let fraction := digits.drop n
    String.ofList whole ++ "." ++ (if fraction.isEmpty then "0" else String.ofList fraction)

/-- The text of a number. -/
def toText : Binary64 → String
  | .nan => "nan"
  | .infinite s => if s then "-inf" else "inf"
  | .finite s m e _ =>
    let body := if m = 0 then "0.0" else
      let (d, k) := shortest m e
      decimalText d k
    if s then "-" ++ body else body

/-- The number nearest to `± d · 10 ^ k`. -/
def ofDecimal (negative : Bool) (d : Nat) (k : Int) : Binary64 :=
  let p : Int := k + (digitsOf d).length
  if d = 0 ∨ p < -400 then zero negative
  else if 400 < p then .infinite negative
  else if 0 ≤ k then ofRatio negative (d * Nat.pow 10 k.toNat) 1
  else ofRatio negative d (Nat.pow 10 (-k).toNat)

end RouteLens.Binary64
