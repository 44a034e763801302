import RouteLens.Document.Content

/-!
# Reading a document

The value that a document spells out.  A merge key brings in the entries of other mappings; entries
of the mapping itself come after them and so take their place.
-/

namespace RouteLens.Document

variable {edition : Nat} [CharacterNames edition]

namespace Content

mutual

/-- The value of a part. -/
def toValue : Content → Except Fault Value
  | .scalar tag text => Scalar.read tag text
  | .sequence .sequence items => do return .list (← toValues items)
  | .sequence .orderedPairs items => do return .list (← toPairs items)
  | .sequence .pairs items => do return .list (← toPairs items)
  | .sequence _ _ => .error .badDocument
  | .mapping .mapping entries => do
    let (merged, own) ← toEntries entries
    return .dict ((merged ++ own).foldl (fun es e => Value.putEntry e.1 e.2 es) [])
  | .mapping _ _ => .error .badDocument

/-- The values of several parts. -/
def toValues : List Content → Except Fault (List Value)
  | [] => .ok []
  | c :: cs => do
    let v ← toValue c
    return v :: (← toValues cs)

/-- The pairs that mappings of one entry stand for. -/
def toPairs : List Content → Except Fault (List Value)
  | [] => .ok []
  | .mapping _ [(k, v)] :: cs => do
    let key ← toValue k
    let value ← toValue v
    return .list [key, value] :: (← toPairs cs)
  | _ :: _ => .error .badDocument

/-- The entries of a mapping: those that merge keys bring in, and its own. -/
def toEntries : List (Content × Content) →
    Except Fault (List (Value × Value) × List (Value × Value))
  | [] => .ok ([], [])
  | (.scalar .merge _, v) :: es => do
    let brought ← toMerged v
    let (merged, own) ← toEntries es
    return (brought ++ merged, own)
  | (.scalar .default text, v) :: es => do
    let value ← toValue v
    let (merged, own) ← toEntries es
    return (merged, (.text text, value) :: own)
  | (k, v) :: es => do
    let key ← toValue k
    if !key.isKey then throw .badDocument
    let value ← toValue v
    let (merged, own) ← toEntries es
    return (merged, (key, value) :: own)

/-- The entries that the value of a merge key brings in. -/
def toMerged : Content → Except Fault (List (Value × Value))
  | .mapping _ entries => do
    let (merged, own) ← toEntries entries
    return merged ++ own
  | .sequence _ items => toMergedAll items
  | .scalar _ _ => .error .badDocument

/-- The entries that a sequence of mappings brings in; the first mapping has the last word. -/
def toMergedAll : List Content → Except Fault (List (Value × Value))
  | [] => .ok []
  | .mapping _ entries :: cs => do
    let (merged, own) ← toEntries entries
    return (← toMergedAll cs) ++ (merged ++ own)
  | _ :: _ => .error .badDocument

end

end Content

/-- The value of a document; an empty one has the absent value. -/
def read (s : String) : Except Fault Value := do
  match ← content? s with
  | none => return .null
  | some c => c.toValue

end RouteLens.Document
