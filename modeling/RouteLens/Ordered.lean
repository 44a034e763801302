/-!
# Ordered tables

Tables with text keys that keep the order in which keys were first given.
-/

namespace RouteLens

/-- A table in the order of its keys' first appearance. -/
abbrev Ordered (α : Type) := List (String × α)

namespace Ordered

variable {α : Type}

/-- The entry of a key. -/
def get? (t : Ordered α) (key : String) : Option α :=
  (t.find? (·.1 == key)).map Prod.snd

/-- Whether a key has an entry. -/
def hasKey (t : Ordered α) (key : String) : Bool :=
  t.any (·.1 == key)

/-- Sets the entry of a key: a known key keeps its place, a new one goes last. -/
def put (key : String) (value : α) : Ordered α → Ordered α
  | [] => [(key, value)]
  | (k, v) :: rest => if k == key then (k, value) :: rest else (k, v) :: put key value rest

/-- Gives a key an entry unless it has one. -/
def putNew (t : Ordered α) (key : String) (value : α) : Ordered α :=
  if hasKey t key then t else t ++ [(key, value)]

/-- Puts every entry of the second table into the first. -/
def overlay (base upper : Ordered α) : Ordered α :=
  upper.foldl (fun t e => put e.1 e.2 t) base

/-- The keys, in order. -/
def keys (t : Ordered α) : List String :=
  t.map Prod.fst

end Ordered

end RouteLens
