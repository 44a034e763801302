/-!
# Character tables

Properties and maps of characters are kept as sorted ranges in a compact written form of
hexadecimal numbers.  `n` is the character `n` places after the last one listed, `n-k` goes on with
the `k` characters behind it and `n~k` with `k` of them, leaving out every other one.  In a map,
`:target` says where the first character goes, the others of its range going as much further.
Several targets are divided by commas, and a semicolon goes on with those of the next character; a
target that is left empty is the one that stood in its place before.  Behind `=` each character is
itself the target of the next one.  Look-up is a binary search.
-/

namespace RouteLens.Text

/-- The value of a hexadecimal digit. -/
def hexDigit? (c : Char) : Option Nat :=
  if '0' ≤ c ∧ c ≤ '9' then some (c.toNat - '0'.toNat)
  else if 'a' ≤ c ∧ c ≤ 'f' then some (c.toNat - 'a'.toNat + 10)
  else if 'A' ≤ c ∧ c ≤ 'F' then some (c.toNat - 'A'.toNat + 10)
  else none

/-- The number that hexadecimal digits spell; other characters count as zero. -/
def hexNumber (s : String) : Nat :=
  s.toList.foldl (fun n c => n * 16 + (hexDigit? c).getD 0) 0

/-- Reads a range, or several of one character each, behind the character `last`. -/
def readRanges (last : Nat) (s : String) : List (Nat × Nat) :=
  match s.splitToList (· == '-'), s.splitToList (· == '~') with
  | [a, b], _ => [(last + hexNumber a, last + hexNumber a + hexNumber b)]
  | _, [a, b] =>
    (List.range (hexNumber b + 1)).map fun i =>
      (last + hexNumber a + 2 * i, last + hexNumber a + 2 * i)
  | _, _ => [(last + hexNumber s, last + hexNumber s)]

/-- Reads the targets of one character, `before` being those read last. -/
def readTargets (before : List Nat) (s : String) : List Nat :=
  (s.splitToList (· == ',')).zipIdx.map fun (t, i) =>
    if t.isEmpty then before.getD i 0 else hexNumber t

/-- Reads the targets of characters that follow each other. -/
def readRuns (before : List Nat) : List String → List (List Nat)
  | [] => []
  | s :: ss =>
    match s.toList with
    | '=' :: cs => cs.map ([·.toNat])
    | _ => readTargets before s :: readRuns (readTargets before s) ss

/-- Reads a range with its targets, if it has any. -/
def readEntries (last : Nat) (before : List Nat) (s : String) : List ((Nat × Nat) × List Nat) :=
  match s.splitToList (· == ':') with
  | [range, runs] =>
    let ranges := readRanges last range
    let start := (ranges.headD (0, 0)).1
    (readRuns before (runs.splitToList (· == ';'))).zipIdx.flatMap fun (targets, i) =>
      ranges.map fun (lo, hi) => ((lo + i, hi + i), targets.map (· + (lo - start)))
  | _ => (readRanges last s).map (·, [])

/-- Reads words one after the other, the last character and its targets going from each to the
next. -/
def readWords (last : Nat) (before : List Nat) : List String → List ((Nat × Nat) × List Nat)
  | [] => []
  | w :: ws =>
    let entries := readEntries last before w
    match entries.getLast? with
    | some ((_, hi), targets) => entries ++ readWords hi targets ws
    | none => readWords last before ws

/-- Reads lines of words divided by blanks. -/
def readLines (lines : List String) : List ((Nat × Nat) × List Nat) :=
  readWords 0 [] (lines.flatMap (·.splitToList (· == ' ')))

/-- The entry whose range holds `n`, among the sorted entries between `lo` and `hi`. -/
def searchRange {α : Type} (entries : Array ((Nat × Nat) × α)) (n : Nat) (lo hi : Nat) :
    Option ((Nat × Nat) × α) :=
  if lo < hi then
    let mid := (lo + hi) / 2
    match entries[mid]? with
    | none => none
    | some e =>
      if n < e.1.1 then searchRange entries n lo mid
      else if e.1.2 < n then searchRange entries n (mid + 1) hi
      else some e
  else none
termination_by hi - lo

/-- A set of characters as sorted ranges of code points. -/
structure RangeTable where
  entries : Array ((Nat × Nat) × Unit)

namespace RangeTable

/-- Reads lines of ranges. -/
def ofLines (lines : List String) : RangeTable :=
  ⟨((readLines lines).map fun e => (e.1, ())).toArray⟩

/-- The range that holds the character. -/
def find? (t : RangeTable) (c : Char) : Option (Nat × Nat) :=
  (searchRange t.entries c.toNat 0 t.entries.size).map Prod.fst

/-- Membership. -/
def contains (t : RangeTable) (c : Char) : Bool :=
  (t.find? c).isSome

end RangeTable

/-- A map from characters to texts; characters outside it map to themselves. -/
structure MapTable where
  entries : Array ((Nat × Nat) × List Nat)

namespace MapTable

/-- Reads lines of entries. -/
def ofLines (lines : List String) : MapTable :=
  ⟨(readLines lines).toArray⟩

/-- Whether a character has an image of its own. -/
def hasKey (t : MapTable) (c : Char) : Bool :=
  (searchRange t.entries c.toNat 0 t.entries.size).isSome

/-- The image of a character. -/
def apply (t : MapTable) (c : Char) : List Char :=
  match searchRange t.entries c.toNat 0 t.entries.size with
  | none => [c]
  | some (range, [target]) => [Char.ofNat (target + (c.toNat - range.1))]
  | some (_, targets) => targets.map Char.ofNat

end MapTable

/-- A number for every character, zero outside the listed ranges. -/
structure ClassTable where
  entries : Array ((Nat × Nat) × Nat)

namespace ClassTable

/-- Reads lines of entries. -/
def ofLines (lines : List String) : ClassTable :=
  ⟨((readLines lines).map fun e => (e.1, e.2.headD 0)).toArray⟩

/-- The number of the character. -/
def classOf (t : ClassTable) (c : Char) : Nat :=
  match searchRange t.entries c.toNat 0 t.entries.size with
  | none => 0
  | some e => e.2

end ClassTable

/-- Characters by the ordered pair that they stand for. -/
structure PairTable where
  entries : Array ((Nat × Nat) × List (Nat × Nat))

namespace PairTable

/-- Adds a composed character under the second half of its pair. -/
def gather (acc : List (Nat × List (Nat × Nat))) (e : Nat × Nat × Nat) :
    List (Nat × List (Nat × Nat)) :=
  match acc with
  | [] => [(e.1, [e.2])]
  | (k, vs) :: rest => if k == e.1 then (k, e.2 :: vs) :: rest else (e.1, [e.2]) :: acc

/-- Reads lines of entries `composed:first,second`; pairs are kept by first half. -/
def ofLines (lines : List String) : PairTable :=
  let rows := (readLines lines).map fun e =>
    match e with
    | (r, [a, b]) => (a, b, r.1)
    | (r, _) => (0, 0, r.1)
  let sorted := rows.mergeSort fun x y => x.1 ≤ y.1
  ⟨((sorted.foldl gather []).reverse.map fun e => ((e.1, e.1), e.2)).toArray⟩

/-- The character that the pair composes to. -/
def find? (t : PairTable) (a b : Char) : Option Char :=
  match searchRange t.entries a.toNat 0 t.entries.size with
  | none => none
  | some (_, vs) => (vs.lookup b.toNat).map Char.ofNat

end PairTable

end RouteLens.Text
