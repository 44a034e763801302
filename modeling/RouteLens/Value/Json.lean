import RouteLens.Fault
import RouteLens.Number.Decimal
import RouteLens.Text.Quote
import RouteLens.Text.Search
import RouteLens.Value

/-!
# Values as JSON

Values over several lines, two columns to a level, in ASCII.  What JSON has no form for is written
as the text that shows it.
-/

namespace RouteLens.Value

/-- One half of a character beyond the sixteen-bit range, or the character itself, as an escape. -/
def unitEscape (n : Nat) : List Char :=
  '\\' :: 'u' :: Text.hexDigits n 4

/-- One character of a quoted text. -/
def jsonChar (c : Char) : List Char :=
  let n := c.toNat
  if c == '"' then ['\\', '"']
  else if c == '\\' then ['\\', '\\']
  else if c == '\n' then ['\\', 'n']
  else if c == '\r' then ['\\', 'r']
  else if c == '\t' then ['\\', 't']
  else if c == '\x0c' then ['\\', 'f']
  else if c == '\x08' then ['\\', 'b']
  else if 0x20 ≤ n && n ≤ 0x7e then [c]
  else if n ≤ 0xffff then unitEscape n
  else unitEscape (0xd800 + (n - 0x10000) / 0x400) ++ unitEscape (0xdc00 + (n - 0x10000) % 0x400)

/-- A text between quotes. -/
def jsonText (s : String) : String :=
  String.ofList ('"' :: s.toList.flatMap jsonChar ++ ['"'])

/-- A floating-point number; the special ones have names. -/
def jsonFloat : Binary64 → String
  | .nan => "NaN"
  | .infinite negative => if negative then "-Infinity" else "Infinity"
  | x => x.toText

/-- A part of a complex number: whole numbers have no point. -/
def complexPart (x : Binary64) : String :=
  let s := x.toText
  if Text.endsWith s ".0" then String.ofList (s.toList.take (s.length - 2)) else s

/-- The text of a complex number.  A real part of zero is left out unless it is negative. -/
def complexText (re im : Binary64) : String :=
  let i := complexPart im
  if re.isZero && !re.isNegative then i ++ "j"
  else "(" ++ complexPart re ++ (if i.startsWith "-" then "" else "+") ++ i ++ "j)"

/-- A key of an object: only texts, numbers, truth values and the absent value can be one. -/
def jsonKey : Value → Except Fault String
  | .text s => .ok s
  | .int n => .ok (toString n)
  | .float x => .ok (jsonFloat x)
  | .bool b => .ok (if b then "true" else "false")
  | .null => .ok "null"
  | _ => .error .wrongKind

/-- The start of a line at a level. -/
def jsonLine (level : Nat) : String :=
  "\n" ++ String.ofList (List.replicate (2 * level) ' ')

/-- Items between brackets, one to a line. -/
def jsonLines (opening closing : String) (level : Nat) (items : List String) : String :=
  opening ++ jsonLine (level + 1) ++ Text.joinWith ("," ++ jsonLine (level + 1)) items ++
    jsonLine level ++ closing

mutual

/-- A value as JSON, at a level. -/
def jsonAt (level : Nat) : Value → Except Fault String
  | .null => .ok "null"
  | .bool b => .ok (if b then "true" else "false")
  | .int n => .ok (toString n)
  | .float x => .ok (jsonFloat x)
  | .text s => .ok (jsonText s)
  | .complex re im => .ok (jsonText (complexText re im))
  | .bytes bs => .ok (jsonText (Text.quoteBytes bs))
  | .ellipsis => .ok (jsonText "Ellipsis")
  | .missing => .ok (jsonText "MISSING")
  | .date iso => .ok (jsonText iso)
  | .list [] => .ok "[]"
  | .list (v :: vs) => do
    let items ← jsonItems (level + 1) (v :: vs)
    return jsonLines "[" "]" level items
  | .dict [] => .ok "\x7b\x7d"
  | .dict (e :: es) => do
    let items ← jsonEntries (level + 1) (e :: es)
    return jsonLines "\x7b" "\x7d" level items

/-- The items of a list. -/
def jsonItems (level : Nat) : List Value → Except Fault (List String)
  | [] => .ok []
  | v :: vs => do
    let item ← jsonAt level v
    return item :: (← jsonItems level vs)

/-- The entries of an object. -/
def jsonEntries (level : Nat) : List (Value × Value) → Except Fault (List String)
  | [] => .ok []
  | (k, v) :: es => do
    let key ← jsonKey k
    let item ← jsonAt level v
    return (jsonText key ++ ": " ++ item) :: (← jsonEntries level es)

end

/-- A value as JSON. -/
def toJson (v : Value) : Except Fault String :=
  jsonAt 0 v

end RouteLens.Value
