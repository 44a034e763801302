import RouteLens.Number.Binary64

/-!
# Values

The values that a source text can spell out and that settings can hold.  Dictionaries keep the
order in which their keys were first given, and a key given again keeps its first spelling.
-/

namespace RouteLens

/-- A value. -/
inductive Value where
  | null
  | bool (b : Bool)
  | int (n : Int)
  | float (x : Binary64)
  | complex (re im : Binary64)
  | text (s : String)
  | bytes (bs : List UInt8)
  | ellipsis
  /-- The mark of a value that a source text does not spell out. -/
  | missing
  | date (iso : String)
  | list (items : List Value)
  | dict (entries : List (Value × Value))

instance : Inhabited Value := ⟨.null⟩

namespace Value

/-- The real and imaginary part of a number, if the value is one.  Truth values count as zero and
one. -/
def number? : Value → Option ((Int ⊕ Binary64) × Binary64)
  | .bool b => some (.inl (if b then 1 else 0), .zero false)
  | .int n => some (.inl n, .zero false)
  | .float x => some (.inr x, .zero false)
  | .complex re im => some (.inr re, im)
  | _ => none

/-- Exact equality of real numbers of either kind. -/
def sameReal : Int ⊕ Binary64 → Int ⊕ Binary64 → Bool
  | .inl a, .inl b => a == b
  | .inl a, .inr y => Binary64.compareInt a y == some .eq
  | .inr x, .inl b => Binary64.compareInt b x == some .eq
  | .inr x, .inr y => Binary64.compare? x y == some .eq

/-- Whether two values are the same key.  Numbers are compared by value, whatever their kind. -/
def sameKey (a b : Value) : Bool :=
  match a.number?, b.number? with
  | some (x, i), some (y, j) => sameReal x y && Binary64.compare? i j == some .eq
  | some _, none => false
  | none, some _ => false
  | none, none =>
    match a, b with
    | .null, .null => true
    | .text s, .text t => s == t
    | .bytes s, .bytes t => s == t
    | .ellipsis, .ellipsis => true
    | .missing, .missing => true
    | .date s, .date t => s == t
    | _, _ => false

/-- Whether a value can be a key: lists and dictionaries cannot. -/
def isKey : Value → Bool
  | .list _ => false
  | .dict _ => false
  | _ => true

/-- Puts an entry into a dictionary: the value of a known key is replaced, a new key goes last. -/
def putEntry (key value : Value) : List (Value × Value) → List (Value × Value)
  | [] => [(key, value)]
  | (k, v) :: rest =>
    if k.sameKey key then (k, value) :: rest else (k, v) :: putEntry key value rest

/-- The value of a key. -/
def lookup (key : Value) : List (Value × Value) → Option Value
  | [] => none
  | (k, v) :: rest => if k.sameKey key then some v else lookup key rest

/-- The value of a text key. -/
def get? (entries : List (Value × Value)) (key : String) : Option Value :=
  lookup (.text key) entries

/-- Whether a value counts as true: empty ones, zeros and the absent value do not. -/
def truthy : Value → Bool
  | .null => false
  | .bool b => b
  | .int n => n != 0
  | .float x => !x.isZero
  | .complex re im => !(re.isZero && im.isZero)
  | .text s => !s.isEmpty
  | .bytes bs => !bs.isEmpty
  | .ellipsis => true
  | .missing => true
  | .date _ => true
  | .list xs => !xs.isEmpty
  | .dict es => !es.isEmpty

end Value

end RouteLens
