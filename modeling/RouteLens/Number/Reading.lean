import RouteLens.Number.Decimal
import RouteLens.Text.Letter

/-!
# Reading numbers from text

Integers and floating-point numbers as people write them in settings: blanks around the number, a
sign, digits of any script, and single underscores between digits.
-/

namespace RouteLens

namespace NumberText

/-- A blank that may stand around a number. -/
def isBlank (c : Char) : Bool :=
  if c.toNat < 127 then c == ' ' || (9 ≤ c.toNat && c.toNat ≤ 13) else Text.isBlank c

/-- The text without the blanks around it. -/
def trim (cs : List Char) : List Char :=
  ((cs.dropWhile isBlank).reverse.dropWhile isBlank).reverse

/-- Splits off a sign: whether it is a minus, and what follows. -/
def splitSign : List Char → Bool × List Char
  | '-' :: cs => (true, cs)
  | '+' :: cs => (false, cs)
  | cs => (false, cs)

/-- Digits of any script become ASCII digits; other characters stay. -/
def plainDigit (c : Char) : Char :=
  match Text.digitValue? c with
  | some d => Char.ofNat ('0'.toNat + d)
  | none => c

/-- Removes underscores that stand between two digits, and refuses all others. -/
def dropUnderscores (afterDigit : Bool) : List Char → Option (List Char)
  | [] => some []
  | '_' :: c :: cs =>
    if afterDigit && c.isDigit then (dropUnderscores true cs).map (c :: ·) else none
  | c :: cs => if c == '_' then none else (dropUnderscores c.isDigit cs).map (c :: ·)

/-- The value of ASCII digits. -/
def natOf (cs : List Char) : Nat :=
  cs.foldl (fun n c => n * 10 + (c.toNat - '0'.toNat)) 0

/-- An exponent part: nothing, or `e`, a sign and digits. -/
def readExponent? : List Char → Option Int
  | [] => some 0
  | c :: cs =>
    if c == 'e' || c == 'E' then
      let (negative, digits) := splitSign cs
      if digits.isEmpty || !digits.all Char.isDigit then none
      else some (if negative then -(natOf digits : Int) else natOf digits)
    else none

/-- An unsigned decimal number with optional point and exponent. -/
def readUnsigned? (negative : Bool) (cs : List Char) : Option Binary64 :=
  let whole := cs.takeWhile Char.isDigit
  let rest := cs.dropWhile Char.isDigit
  let (fraction, tail) := match rest with
    | '.' :: r => (r.takeWhile Char.isDigit, r.dropWhile Char.isDigit)
    | r => ([], r)
  if whole.isEmpty && fraction.isEmpty then none
  else (readExponent? tail).map fun p =>
    Binary64.ofDecimal negative (natOf (whole ++ fraction)) (p - fraction.length)

end NumberText

open NumberText

/-- Reads an integer. -/
def readInteger? (s : String) : Option Int :=
  let (negative, body) := splitSign (trim (s.toList.map plainDigit))
  match dropUnderscores false body with
  | some digits =>
    if digits.isEmpty || !digits.all Char.isDigit then none
    else some (if negative then -(natOf digits : Int) else natOf digits)
  | none => none

/-- Reads a floating-point number, the names of the infinities and of not-a-number included. -/
def readFloat? (s : String) : Option Binary64 :=
  let (negative, body) := splitSign (trim (s.toList.map plainDigit))
  let word := String.ofList (body.map Char.toLower)
  if word == "inf" || word == "infinity" then some (.infinite negative)
  else if word == "nan" then some .nan
  else (dropUnderscores false body).bind (readUnsigned? negative)

end RouteLens
