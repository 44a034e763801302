import RouteLens.Text.Printable

/-!
# Quoting

Texts and bytes between quotes, with escapes for what cannot be shown.  Single quotes are used
unless the text holds a single quote and no double one.
-/

namespace RouteLens.Text

/-- A hexadecimal digit, in lower case. -/
def hexChar (n : Nat) : Char :=
  if n < 10 then Char.ofNat ('0'.toNat + n) else Char.ofNat ('a'.toNat + (n - 10))

/-- The last `width` hexadecimal digits of a number. -/
def hexDigits (n : Nat) : Nat → List Char
  | 0 => []
  | width + 1 => hexDigits (n / 16) width ++ [hexChar (n % 16)]

/-- The escape for a character that cannot be shown. -/
def escapeChar (c : Char) : List Char :=
  let n := c.toNat
  if c == '\n' then ['\\', 'n']
  else if c == '\t' then ['\\', 't']
  else if c == '\r' then ['\\', 'r']
  else if c == '\\' then ['\\', '\\']
  else if n ≤ 0xff then '\\' :: 'x' :: hexDigits n 2
  else if n ≤ 0xffff then '\\' :: 'u' :: hexDigits n 4
  else '\\' :: 'U' :: hexDigits n 8

/-- The quote to use for a text. -/
def quoteFor (cs : List Char) : Char :=
  if cs.contains '\'' && !cs.contains '"' then '"' else '\''

/-- One character of a quoted text. -/
def quoteChar (quote c : Char) : List Char :=
  if c == quote then ['\\', c]
  else if c == '\\' || !isPrintable c then escapeChar c
  else [c]

/-- What stands between the quotes. -/
def quoteBody (quote : Char) (cs : List Char) : List Char :=
  cs.flatMap (quoteChar quote)

/-- A text between quotes. -/
def quote (s : String) : String :=
  let q := quoteFor s.toList
  String.ofList (q :: quoteBody q s.toList ++ [q])

/-- One byte of quoted bytes. -/
def quoteByte (quote : Char) (b : UInt8) : List Char :=
  let c := Char.ofNat b.toNat
  if c == quote then ['\\', c]
  else if c == '\\' || c == '\n' || c == '\t' || c == '\r' then escapeChar c
  else if b < 32 || 127 ≤ b then '\\' :: 'x' :: hexDigits b.toNat 2
  else [c]

/-- Bytes between quotes. -/
def quoteBytes (bs : List UInt8) : String :=
  let q := quoteFor (bs.map fun b => Char.ofNat b.toNat)
  String.ofList ('b' :: q :: bs.flatMap (quoteByte q) ++ [q])

end RouteLens.Text
