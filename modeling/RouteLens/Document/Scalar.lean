import RouteLens.Document.Base64
import RouteLens.Document.Timestamp
import RouteLens.Fault
import RouteLens.Number.Reading
import RouteLens.Regex.Patterns
import RouteLens.Text.Search
import RouteLens.Value

/-!
# Scalars of a document

What a scalar text stands for.  A plain text without a tag gets one from its form: a number, a
truth value, a day and so on; every other text stands for itself.
-/

namespace RouteLens.Document

variable {edition : Nat} [CharacterNames edition]

/-- What a part of a document is meant to be. -/
inductive Tag where
  | null
  | bool
  | int
  | float
  | binary
  | timestamp
  | text
  | sequence
  | mapping
  | orderedPairs
  | pairs
  | merge
  | default
  | unknown
  deriving DecidableEq

namespace Tag

/-- What the names of the standard tags start with. -/
def standard : String :=
  "tag:yaml.org,2002:"

/-- The standard tags by name. -/
def names : List (String × Tag) :=
  [("null", .null), ("bool", .bool), ("int", .int), ("float", .float), ("binary", .binary),
   ("timestamp", .timestamp), ("str", .text), ("seq", .sequence), ("map", .mapping),
   ("omap", .orderedPairs), ("pairs", .pairs), ("merge", .merge), ("value", .default)]

/-- The tag of a full name. -/
def ofName (s : String) : Tag :=
  match names.find? (fun n => standard ++ n.1 == s) with
  | some n => n.2
  | none => .unknown

end Tag

namespace Scalar

/-! ## The tag that a plain text has from its form -/

/-- The texts that are truth values. -/
def boolTexts : List (String × Bool) :=
  [("yes", true), ("Yes", true), ("YES", true), ("no", false), ("No", false), ("NO", false),
   ("true", true), ("True", true), ("TRUE", true), ("false", false), ("False", false),
   ("FALSE", false), ("on", true), ("On", true), ("ON", true), ("off", false), ("Off", false),
   ("OFF", false)]

/-- The texts that stand for nothing. -/
def nullTexts : List String :=
  ["", "~", "null", "Null", "NULL"]

/-- The forms of floating-point numbers: with a point, with sixtieths, and the names. -/
def floatForms : Patterns :=
  .read {} ["^[-+]?[0-9][0-9_]*\\.[0-9_]*([eE][-+][0-9]+)?$",
    "^\\.[0-9][0-9_]*([eE][-+][0-9]+)?$",
    "^[-+]?[0-9][0-9_]*(:[0-5]?[0-9])+\\.[0-9_]*$",
    "^[-+]?\\.(inf|Inf|INF)$",
    "^\\.(nan|NaN|NAN)$"]

/-- The forms of integers: of base two, eight, ten, sixteen, and with sixtieths. -/
def intForms : Patterns :=
  .read {} ["^[-+]?0b[0-1_]+$",
    "^[-+]?0[0-7_]+$",
    "^[-+]?(0|[1-9][0-9_]*)$",
    "^[-+]?0x[0-9a-fA-F_]+$",
    "^[-+]?[1-9][0-9_]*(:[0-5]?[0-9])+$"]

/-- The tag that a plain text has from its form. -/
def tagOf (s : String) : Tag :=
  if (boolTexts.lookup s).isSome then .bool
  else if floatForms.search s then .float
  else if intForms.search s then .int
  else if s == "<<" then .merge
  else if nullTexts.contains s then .null
  else if (Timestamp.read? s).isSome then .timestamp
  else if s == "=" then .default
  else .text

/-! ## The value of a text with a tag -/

/-- The value of a digit of base sixteen or less. -/
def digitOf? (base : Nat) (c : Char) : Option Nat :=
  let n :=
    if c.isDigit then c.toNat - '0'.toNat
    else if 'a' ≤ c && c ≤ 'f' then c.toNat - 'a'.toNat + 10
    else if 'A' ≤ c && c ≤ 'F' then c.toNat - 'A'.toNat + 10
    else base
  if n < base then some n else none

/-- A number in a base other than ten. -/
def inBase (base : Nat) (cs : List Char) : Except Fault Int :=
  match cs.mapM (digitOf? base) with
  | some ds =>
    if ds.isEmpty then .error .badDocument else .ok (ds.foldl (fun n d => n * base + d) 0 : Nat)
  | none => .error .badDocument

/-- A number in base ten. -/
def inTen (s : String) : Except Fault Int :=
  orFault (.badInteger s) (readInteger? s)

/-- An integer: underscores are passed over, and parts between colons count sixtieths. -/
def readInt (s : String) : Except Fault Value := do
  let cs := s.toList.filter (· != '_')
  let (negative, cs) := NumberText.splitSign cs
  let n ← match cs with
    | [] => throw .badDocument
    | ['0'] => pure 0
    | '0' :: 'b' :: ds => inBase 2 ds
    | '0' :: 'x' :: ds => inBase 16 ds
    | '0' :: ds => inBase 8 ds
    | cs =>
      (Text.split ':' (String.ofList cs)).foldlM (fun n part => return n * 60 + (← inTen part)) 0
  return .int (if negative then -n else n)

/-- A floating-point number in base ten. -/
def decimalFloat (s : String) : Except Fault Binary64 :=
  orFault (.badFloat s) (readFloat? s)

/-- Parts between colons, the last first: each counts sixty times the one before. -/
def sixtieths (base : Nat) (total : Binary64) : List String → Except Fault Binary64
  | [] => .ok total
  | part :: rest => do
    let x ← decimalFloat part
    sixtieths (base * 60) (total.add (x.mul (.ofRatio false base 1))) rest

/-- A floating-point number. -/
def readFloatScalar (s : String) : Except Fault Value := do
  let cs := (s.toList.filter (· != '_')).map Char.toLower
  let (negative, cs) := NumberText.splitSign cs
  let body := String.ofList cs
  if cs.isEmpty then throw .badDocument
  let x ←
    if body == ".inf" then decimalFloat "inf"
    else if body == ".nan" then decimalFloat "nan"
    else if cs.contains ':' then sixtieths 1 (.zero false) (Text.split ':' body).reverse
    else decimalFloat body
  return .float (if negative && body != ".nan" then x.neg else x)

/-- The value of a text with a tag. -/
def read (t : Tag) (s : String) : Except Fault Value :=
  match t with
  | .null => .ok .null
  | .text => .ok (.text s)
  | .int => readInt s
  | .float => readFloatScalar s
  | .bool =>
    match boolTexts.lookup (String.ofList (s.toList.map Char.toLower)) with
    | some b => .ok (.bool b)
    | none => .error .unknownKey
  | .timestamp =>
    match Timestamp.read? s with
    | some t => if t.isValid then .ok (.date t.toText) else .error .badDocument
    | none => .error .noSuchPart
  | .binary =>
    match Base64.decode? s.toList with
    | some bs => if s.toList.all (·.toNat < 128) then .ok (.bytes bs) else .error .badDocument
    | none => .error .badDocument
  | _ => .error .badDocument

end Scalar

end RouteLens.Document
