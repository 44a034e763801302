import RouteLens.Number.Decimal
import RouteLens.Number.Reading
import RouteLens.Token

/-!
# Number literals

Integers in four bases, floating-point and imaginary literals.  Single underscores may stand
between digits.  A literal may not run into a name, except into one of the words that can follow
an operand.
-/

namespace RouteLens.NumberLiteral

/-- A character that can be part of a name, before names are checked closely. -/
def isNamePart (c : Char) : Bool :=
  c.isAlphanum || c == '_' || 128 ≤ c.toNat

/-- Words that may follow a number without a blank. -/
def wordsAfter : List (List Char) :=
  ["and", "else", "for", "if", "in", "is", "or", "not"].map String.toList

/-- Whether a number may end before the given text. -/
def canEndBefore (cs : List Char) : Bool :=
  match cs with
  | [] => true
  | c :: _ => wordsAfter.any (·.isPrefixOf cs) || !isNamePart c

/-- Digits with single underscores between them: the digits in reverse, and the rest. -/
def digitRun (isDigit : Char → Bool) (acc : List Char) :
    List Char → Option (List Char × List Char)
  | [] => some (acc, [])
  | '_' :: cs =>
    match cs with
    | [] => none
    | d :: _ => if isDigit d then digitRun isDigit acc cs else none
  | c :: cs => if isDigit c then digitRun isDigit (c :: acc) cs else some (acc, c :: cs)

/-- The value of digits given in reverse. -/
def valueOf (base : Nat) (reversed : List Char) : Nat :=
  reversed.reverse.foldl (fun n c => n * base + (Text.hexDigit? c).getD 0) 0

/-- An integer in base two, eight or sixteen, after its mark. -/
def scanBased (base : Nat) (cs : List Char) : Option (Numeral × List Char) := do
  let isDigit (c : Char) : Bool := match Text.hexDigit? c with
    | some d => d < base
    | none => false
  let (digits, rest) ← digitRun isDigit [] cs
  guard (!digits.isEmpty)
  guard !(rest.head?.any Char.isDigit)
  guard (canEndBefore rest)
  return (.int (valueOf base digits), rest)

/-- An exponent: its value and the rest; `none` when no digit follows the mark and its sign. -/
def scanExponent (cs : List Char) : Option (Int × List Char) := do
  let (negative, body) := NumberText.splitSign cs
  guard (body.head?.any Char.isDigit)
  let (digits, rest) ← digitRun Char.isDigit [] body
  let n : Int := valueOf 10 digits
  return (if negative then -n else n, rest)

/-- The most digits that a decimal integer literal may have. -/
def maxIntegerDigits : Nat := 4300

/-- Finishes a decimal literal from its digits, all in reverse.  `asInteger` says whether the
digits alone may stand as an integer, and `isFloat` whether a point was read. -/
def finish (digits fraction : List Char) (asInteger isFloat : Bool) (cs : List Char) :
    Option (Numeral × List Char) := do
  let mantissa := valueOf 10 (fraction ++ digits)
  let float (p : Int) := Binary64.ofDecimal false mantissa (p - fraction.length)
  let plain (rest : List Char) : Option (Numeral × List Char) := do
    guard (canEndBefore rest)
    if isFloat then return (.float (float 0), rest)
    guard (asInteger && digits.length ≤ maxIntegerDigits)
    return (.int mantissa, rest)
  let isImaginaryMark (c : Char) := c == 'j' || c == 'J'
  match cs with
  | c :: rest =>
    if c == 'e' || c == 'E' then
      match scanExponent rest with
      | some (p, rest) =>
        match rest with
        | j :: rest' =>
          if isImaginaryMark j then
            guard (canEndBefore rest')
            return (.imaginary (float p), rest')
          guard (canEndBefore rest)
          return (.float (float p), rest)
        | [] => return (.float (float p), [])
      | none => plain cs
    else if isImaginaryMark c then
      guard (canEndBefore rest)
      return (.imaginary (float 0), rest)
    else plain cs
  | [] => plain []

/-- Reads what may follow the whole digits of a decimal literal. -/
def scanTail (digits : List Char) (asInteger : Bool) (cs : List Char) :
    Option (Numeral × List Char) :=
  match cs with
  | '.' :: rest =>
    match (if rest.head?.any Char.isDigit then digitRun Char.isDigit [] rest
      else some ([], rest)) with
    | some (fraction, rest) => finish digits fraction asInteger true rest
    | none => none
  | _ => finish digits [] asInteger false cs

/-- Reads a number literal; the text starts with a digit, or with a point before a digit. -/
def scan (cs : List Char) : Option (Numeral × List Char) :=
  match cs with
  | '0' :: c :: rest =>
    if c == 'x' || c == 'X' then scanBased 16 rest
    else if c == 'o' || c == 'O' then scanBased 8 rest
    else if c == 'b' || c == 'B' then scanBased 2 rest
    else
      match digitRun Char.isDigit [] cs with
      | some (digits, rest) => scanTail digits (digits.all (· == '0')) rest
      | none => none
  | '.' :: _ => scanTail [] true cs
  | _ =>
    match digitRun Char.isDigit [] cs with
    | some (digits, rest) => scanTail digits true rest
    | none => none

end RouteLens.NumberLiteral
