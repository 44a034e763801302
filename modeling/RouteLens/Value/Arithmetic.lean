import RouteLens.Fault
import RouteLens.Value

/-!
# Arithmetic on values

Sums, differences, products and quotients of numbers, and the joining and repeating of texts, bytes
and lists.  Integers are exact; a quotient of integers is rounded once.  An operation without a
result is a fault: of wrong kinds, of a division by zero, or of an integer that is too large for a
floating-point number or for a length.
-/

namespace RouteLens

/-- A number of one of the three kinds. -/
inductive Numeric where
  | int (n : Int)
  | float (x : Binary64)
  | complex (re im : Binary64)

namespace Numeric

/-- The number that a value is; truth values count as zero and one. -/
def ofValue? : Value → Option Numeric
  | .bool b => some (.int (if b then 1 else 0))
  | .int n => some (.int n)
  | .float x => some (.float x)
  | .complex re im => some (.complex re im)
  | _ => none

/-- A number as a value. -/
def toValue : Numeric → Value
  | .int n => .int n
  | .float x => .float x
  | .complex re im => .complex re im

/-- An integer as a floating-point number, if it is not too large. -/
def floatOfInt (n : Int) : Except Fault Binary64 :=
  orFault .integerTooLarge (Binary64.ofInt? n)

/-- A number as a floating-point one, if it is real and not too large. -/
def toFloat : Numeric → Except Fault Binary64
  | .int n => floatOfInt n
  | .float x => .ok x
  | .complex _ _ => .error .wrongKind

/-- A number as a complex one. -/
def toComplex : Numeric → Except Fault (Binary64 × Binary64)
  | .int n => (floatOfInt n).map (·, .zero false)
  | .float x => .ok (x, .zero false)
  | .complex re im => .ok (re, im)

/-- Applies the operation of the wider kind of the two numbers. -/
def combine (onInt : Int → Int → Except Fault Numeric)
    (onFloat : Binary64 → Binary64 → Except Fault Binary64)
    (onComplex : Binary64 × Binary64 → Binary64 × Binary64 → Except Fault (Binary64 × Binary64))
    (a b : Numeric) : Except Fault Numeric :=
  match a, b with
  | .int m, .int n => onInt m n
  | .complex _ _, _ | _, .complex _ _ => do
    let (re, im) ← onComplex (← a.toComplex) (← b.toComplex)
    return .complex re im
  | _, _ => do return .float (← onFloat (← a.toFloat) (← b.toFloat))

/-- The sum. -/
def add : Numeric → Numeric → Except Fault Numeric :=
  combine (fun m n => .ok (.int (m + n))) (fun x y => .ok (x.add y))
    fun x y => .ok (x.1.add y.1, x.2.add y.2)

/-- The difference. -/
def sub : Numeric → Numeric → Except Fault Numeric :=
  combine (fun m n => .ok (.int (m - n))) (fun x y => .ok (x.sub y))
    fun x y => .ok (x.1.sub y.1, x.2.sub y.2)

/-- The product. -/
def mul : Numeric → Numeric → Except Fault Numeric :=
  combine (fun m n => .ok (.int (m * n))) (fun x y => .ok (x.mul y))
    fun x y => .ok ((x.1.mul y.1).sub (x.2.mul y.2), (x.1.mul y.2).add (x.2.mul y.1))

/-- The quotient of integers. -/
def divInt (m n : Int) : Except Fault Numeric :=
  if n = 0 then .error .zeroDivision
  else (orFault .quotientTooLarge (Binary64.ofIntRatio? m n)).map .float

/-- The quotient of floating-point numbers. -/
def divFloat (x y : Binary64) : Except Fault Binary64 :=
  if y.isZero then .error .zeroDivision else .ok (x.div y)

/-- The quotient of complex numbers, scaled by the larger part of the divisor. -/
def divComplex (x y : Binary64 × Binary64) : Except Fault (Binary64 × Binary64) :=
  match Binary64.compare? y.1.abs y.2.abs with
  | none => .ok (.nan, .nan)
  | some .lt =>
    let ratio := y.1.div y.2
    let denom := (y.1.mul ratio).add y.2
    .ok (((x.1.mul ratio).add x.2).div denom, ((x.2.mul ratio).sub x.1).div denom)
  | some _ =>
    if y.1.isZero then .error .zeroDivision
    else
      let ratio := y.2.div y.1
      let denom := y.1.add (y.2.mul ratio)
      .ok ((x.1.add (x.2.mul ratio)).div denom, (x.2.sub (x.1.mul ratio)).div denom)

/-- The quotient. -/
def div : Numeric → Numeric → Except Fault Numeric :=
  combine divInt divFloat divComplex

end Numeric

namespace Value

/-- The longest length that a sequence may have. -/
def maxLength : Nat := (1 <<< 63) - 1

/-- Items repeated a number of times; a negative number counts as zero.  The number has to be one
that a length or its opposite can be; what is too long is the given fault. -/
def repeated {α : Type} (long : Fault) (xs : List α) (n : Int) : Except Fault (List α) :=
  if n < -(maxLength + 1) ∨ maxLength < n then .error .lengthTooLarge
  else if maxLength < xs.length * n.toNat then .error long
  else if xs.isEmpty then .ok []
  else .ok (List.replicate n.toNat xs).flatten

/-- A sequence repeated a number of times. -/
def repeatSequence (v : Value) (n : Int) : Except Fault Value :=
  match v with
  | .text s => (repeated .tooLong s.toList n).map fun cs => .text (String.ofList cs)
  | .bytes bs => (repeated .tooLong bs n).map .bytes
  | .list xs => (repeated .outOfMemory xs n).map .list
  | _ => .error .wrongKind

/-- An operation on two numbers, carried over to values. -/
def onNumbers (f : Numeric → Numeric → Except Fault Numeric) (a b : Value) : Except Fault Value :=
  match Numeric.ofValue? a, Numeric.ofValue? b with
  | some p, some q => (f p q).map Numeric.toValue
  | _, _ => .error .wrongKind

/-- The sum of numbers; texts, bytes and lists are joined. -/
def add (a b : Value) : Except Fault Value :=
  match a, b with
  | .text s, .text t => .ok (.text (s ++ t))
  | .bytes s, .bytes t => .ok (.bytes (s ++ t))
  | .list s, .list t => .ok (.list (s ++ t))
  | _, _ => onNumbers Numeric.add a b

/-- The difference of numbers. -/
def sub : Value → Value → Except Fault Value :=
  onNumbers Numeric.sub

/-- The integer that a value is as a number of repetitions. -/
def count? : Value → Option Int
  | .int n => some n
  | .bool b => some (if b then 1 else 0)
  | _ => none

/-- The product of numbers; a sequence is repeated. -/
def mul (a b : Value) : Except Fault Value :=
  match Numeric.ofValue? a, Numeric.ofValue? b with
  | some p, some q => (Numeric.mul p q).map Numeric.toValue
  | none, _ =>
    match count? b with
    | some n => repeatSequence a n
    | none => .error .wrongKind
  | _, none =>
    match count? a with
    | some n => repeatSequence b n
    | none => .error .wrongKind

/-- The quotient of numbers. -/
def div : Value → Value → Except Fault Value :=
  onNumbers Numeric.div

end Value

end RouteLens
