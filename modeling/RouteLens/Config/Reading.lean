import RouteLens.Config
import RouteLens.Number.Reading

/-!
# Reading settings

How the entries of a section become numbers and lists of names.  A setting may be given in several
forms; a form that has no reading is a fault.
-/

namespace RouteLens

namespace Value

/-- The integer part of a floating-point number. -/
def truncated (x : Binary64) : Except Fault Int :=
  match x.truncate with
  | .ok n => .ok n
  | .error .infinite => .error .infiniteNumber
  | .error .nan => .error .undefinedNumber

/-- A setting as an integer: numbers lose their fraction, texts are read. -/
def toInteger : Value → Except Fault Int
  | .bool b => .ok (if b then 1 else 0)
  | .int n => .ok n
  | .float x => truncated x
  | .text s => orFault (.badInteger s) (readInteger? s)
  | _ => .error .wrongKind

/-- An integer as a floating-point number. -/
def floatOfInt (n : Int) : Except Fault Binary64 :=
  orFault .integerTooLarge (Binary64.ofInt? n)

/-- A setting as a floating-point number: texts are read. -/
def toFloat : Value → Except Fault Binary64
  | .bool b => .ok (if b then .one else .zero false)
  | .int n => floatOfInt n
  | .float x => .ok x
  | .text s => orFault (.badFloat s) (readFloat? s)
  | _ => .error .wrongKind

/-- The members of a collection: a text gives its characters, a dictionary its keys. -/
def members : Value → Except Fault (List Value)
  | .list xs => .ok xs
  | .dict es => .ok (es.map Prod.fst)
  | .text s => .ok (s.toList.map fun c => .text (String.singleton c))
  | .bytes bs => .ok (bs.map fun b => .int b.toNat)
  | _ => .error .wrongKind

/-- The text that a value is. -/
def asText : Value → Except Fault String
  | .text s => .ok s
  | _ => .error .wrongKind

/-- The text that a value is, if it is one. -/
def text? : Value → Option String
  | .text s => some s
  | _ => none

/-- A setting as a list of texts. -/
def texts (v : Value) : Except Fault (List String) := do
  (← v.members).mapM asText

/-- A setting as a set of names.  What is no text matches no name, but every member has to be able
to be a key. -/
def names (v : Value) : Except Fault (List String) := do
  let items ← v.members
  if items.all isKey then return items.filterMap text? else throw .wrongKind

end Value

namespace Config

/-- The defaults of a section with the section of a configuration laid over them. -/
def overlaid (c : Config) (name : String) (defaults : Entries) : Except Fault Entries :=
  match c.section? name with
  | none => .ok defaults
  | some (.dict es) => .ok (Entries.overlay defaults es)
  | some _ => .error .wrongKind

/-- The entries of a section, without defaults; none if the section is absent. -/
def entries (c : Config) (name : String) : Except Fault Entries :=
  match c.section? name with
  | none => .ok []
  | some (.dict es) => .ok es
  | some _ => .error .noSuchPart

end Config

namespace Entries

/-- The value of a key that has to be there. -/
def need (es : Entries) (key : String) : Except Fault Value :=
  orFault .unknownKey (Value.get? es key)

/-- The value of a key as a list of texts; an absent key stands for an empty list. -/
def textsOr (es : Entries) (key : String) (absent : List String) : Except Fault (List String) :=
  match Value.get? es key with
  | some v => v.texts
  | none => .ok absent

end Entries

end RouteLens
