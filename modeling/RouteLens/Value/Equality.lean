import RouteLens.Value

/-!
# Equal values

Numbers are equal by value, whatever their kind; the order of a dictionary does not matter.
-/

namespace RouteLens.Value

mutual

/-- Whether two values are equal. -/
def same : Value → Value → Bool
  | .list xs, .list ys => sameItems xs ys
  | .dict es, .dict fs => es.length == fs.length && sameEntries es fs
  | .null, b => sameKey .null b
  | .bool x, b => sameKey (.bool x) b
  | .int n, b => sameKey (.int n) b
  | .float x, b => sameKey (.float x) b
  | .complex x y, b => sameKey (.complex x y) b
  | .text s, b => sameKey (.text s) b
  | .bytes s, b => sameKey (.bytes s) b
  | .ellipsis, b => sameKey .ellipsis b
  | .missing, b => sameKey .missing b
  | .date s, b => sameKey (.date s) b
  | .list _, _ => false
  | .dict _, _ => false

/-- Whether two lists have equal items in the same order. -/
def sameItems : List Value → List Value → Bool
  | [], [] => true
  | x :: xs, y :: ys => x.same y && sameItems xs ys
  | _, _ => false

/-- Whether the second dictionary has every entry of the first. -/
def sameEntries : List (Value × Value) → List (Value × Value) → Bool
  | [], _ => true
  | (k, v) :: es, fs => (lookup k fs).any (v.same ·) && sameEntries es fs

end

end RouteLens.Value
