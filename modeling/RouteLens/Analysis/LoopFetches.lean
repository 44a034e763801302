import RouteLens.Analysis.Collaborators
import RouteLens.Config.Listing

/-!
# Fetches in loops

Methods that await a data fetch in the repeated part of a loop.  A fetch is recognized by its name
alone, in lower case and without underscores.
-/

namespace RouteLens

/-- A name as it is compared: lower case, no underscores. -/
def normalizeCallName (name : String) : String :=
  String.ofList ((Text.toLower name).toList.filter (· != '_'))

/-- The names of fetches: beginnings, parts and whole names; and the fault of a name that is none of
them, if the table has one. -/
structure FetchNames where
  starts : List String
  parts : List String
  whole : List String
  broken : Option Fault := none

namespace FetchNames

/-- The names in a table; an absent list is empty.  Nothing is compared past the first list that
breaks off, and whole names are compared only if all of them are texts. -/
def ofEntries (es : Entries) : FetchNames :=
  let starts := es.listing .noSuchPart "prefixes"
  let parts := es.listing .noSuchPart "contains"
  let whole := es.listing .noSuchPart "exact"
  if starts.broken.isSome then ⟨starts.texts, [], [], starts.broken⟩
  else if parts.broken.isSome then ⟨starts.texts, parts.texts, [], parts.broken⟩
  else if whole.broken.isSome then ⟨starts.texts, parts.texts, [], whole.broken⟩
  else ⟨starts.texts, parts.texts, whole.texts, none⟩

/-- The names in a table; an empty table stands for the default one. -/
def ofTable (es : Entries) : FetchNames :=
  ofEntries (if es.isEmpty then Config.remoteCallDefaults else es)

/-- The names that a configuration sets, with the defaults for absent lists. -/
def ofConfig (c : Config) : Except Fault FetchNames := do
  return ofTable (← c.overlaid "remote_calls" Config.remoteCallDefaults)

/-- Whether a name looks like a fetch. -/
def matchesName (t : FetchNames) (name : String) : Bool :=
  !name.isEmpty &&
    let n := normalizeCallName name
    t.starts.any (fun s => Text.startsWith n (normalizeCallName s)) ||
      t.parts.any (fun s => Text.holds n (normalizeCallName s)) ||
      (t.whole.map normalizeCallName).contains n

/-- Compares a name with a table that may have a fault. -/
def test (t : FetchNames) (name : String) : Except Fault Bool :=
  match t.broken with
  | none => .ok (t.matchesName name)
  | some f => if name.isEmpty || t.matchesName name then .ok (t.matchesName name) else .error f

end FetchNames

/-- What a call calls. -/
def Expr.callee? : Expr → Option Expr
  | .node _ (.call func _ _) => some func
  | _ => none

/-- The call that a construct is, if it is one. -/
def Node.call? : Node → Option Expr
  | .expr e => if e.callee?.isSome then some e else none
  | _ => none

/-- An awaited call: what is awaited if it is a call, else the first call inside it. -/
def awaitedCall? (value : Expr) : Option Expr :=
  match (Node.expr value).call? with
  | some call => some call
  | none => (Node.expr value).descendants.findSome? Node.call?

/-- Whether a method fetches in a loop, and what it calls there. -/
structure LoopFinding where
  suspect : Bool
  sample : Option String
  deriving DecidableEq

/-- A call that is awaited in a loop: what is called and its name. -/
structure LoopCall where
  callee : Expr
  name : String

/-- The call that an awaited expression makes, if what it calls has a name. -/
def LoopCall.ofAwaited? (value : Expr) : Option LoopCall := do
  let callee ← (← awaitedCall? value).callee?
  return ⟨callee, ← callee.terminalName?⟩

/-- The calls awaited in the repeated part of one loop, in document order. -/
def Node.loopCalls (loop : Node) : List LoopCall :=
  (loop.occurrences []).filterMap fun o =>
    match o.node with
    | .expr (.node _ (.await value)) => if o.repeatedByRoot then LoopCall.ofAwaited? value else none
    | _ => none

namespace MethodDecl

/-- The calls awaited in loops, loop by loop in document order. -/
def loopCalls (m : MethodDecl) : List LoopCall :=
  ((m.occurrences.map Occurrence.node).filter Node.isLoop).flatMap Node.loopCalls

/-- The first fetch awaited in a loop. -/
def loopFetch? (m : MethodDecl) (t : FetchNames) : Option LoopCall :=
  m.loopCalls.find? fun c => t.matchesName c.name

/-- The first fetch awaited in a loop, if the search does not meet a fault of the table.  With such
a fault the first call decides, since a name is either a fetch or the fault. -/
def findLoopFetch (m : MethodDecl) (t : FetchNames) : Except Fault (Option LoopCall) := do
  if let some c := m.loopCalls.head? then
    let _ ← t.test c.name
  return m.loopFetch? t

/-- The finding that a fetch in a loop makes. -/
def findingOf (m : MethodDecl) : Option LoopCall → LoopFinding
  | none => ⟨false, none⟩
  | some c => ⟨true, Text.truncate (m.segmentOf c.callee) snippetLength⟩

/-- The finding for a method. -/
def loopFinding (m : MethodDecl) (t : FetchNames) : Except Fault LoopFinding := do
  return m.findingOf (← m.findLoopFetch t)

end MethodDecl

end RouteLens
