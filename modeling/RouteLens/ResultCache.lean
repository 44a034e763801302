import RouteLens.Number.Binary64
import RouteLens.Path

/-!
# Result cache

Results that are kept for a while.  An entry reads as absent from the moment its age reaches the
time to live, and stays in place until it is overwritten or dropped with its root.

Times may be of any type on which it can be told whether a time limit has passed.  Sessions keep
their results by floating-point seconds.
-/

namespace RouteLens

/-- Times, of which it can be told whether a limit has passed from one to another. -/
class Timeline (τ : Type) where
  hasPassed (limit since now : τ) : Bool

instance : Timeline Binary64 where
  hasPassed limit since now :=
    match Binary64.compare? (now.sub since) limit with
    | some .gt | some .eq => true
    | _ => false

/-- What a result is kept under: the root, the class and the method. -/
structure ResultKey where
  root : Path
  className : String
  methodName : String
  deriving DecidableEq

/-- A result, when it was put in, and its number among all that were put in. -/
structure CacheEntry (α : Type) (τ : Type := Binary64) where
  time : τ
  serial : Nat
  value : α

/-- Results by key, and how long they live. -/
structure ResultCache (α : Type) (τ : Type := Binary64) where
  ttl : τ
  serial : Nat := 0
  entries : List (ResultKey × CacheEntry α τ) := []

namespace ResultCache

variable {α τ : Type}

/-- The number of entries, expired ones included. -/
def size (c : ResultCache α τ) : Nat :=
  c.entries.length

/-- The entry of a key, expired or not. -/
def entryOf? (c : ResultCache α τ) (key : ResultKey) : Option (CacheEntry α τ) :=
  (c.entries.find? (·.1 = key)).map Prod.snd

/-- Whether an entry has reached its time to live. -/
def isExpired [Timeline τ] (c : ResultCache α τ) (now : τ) (e : CacheEntry α τ) : Bool :=
  Timeline.hasPassed c.ttl e.time now

/-- The live entry of a key. -/
def get? [Timeline τ] (c : ResultCache α τ) (now : τ) (key : ResultKey) :
    Option (CacheEntry α τ) :=
  (c.entryOf? key).filter fun e => !c.isExpired now e

/-- Puts an entry in the place of one with the same key, or last. -/
def putEntry (key : ResultKey) (e : CacheEntry α τ) :
    List (ResultKey × CacheEntry α τ) → List (ResultKey × CacheEntry α τ)
  | [] => [(key, e)]
  | (k, d) :: rest => if k = key then (k, e) :: rest else (k, d) :: putEntry key e rest

/-- Puts a result in. -/
def put (c : ResultCache α τ) (now : τ) (key : ResultKey) (value : α) : ResultCache α τ :=
  { c with
    serial := c.serial + 1
    entries := putEntry key ⟨now, c.serial, value⟩ c.entries }

/-- Drops every entry of a root. -/
def invalidate (c : ResultCache α τ) (root : Path) : ResultCache α τ :=
  { c with entries := c.entries.filter fun e => e.1.root ≠ root }

/-- Drops every entry. -/
def clear (c : ResultCache α τ) : ResultCache α τ :=
  { c with entries := [] }

@[simp] theorem entryOf?_clear (c : ResultCache α τ) (k : ResultKey) :
    c.clear.entryOf? k = none := rfl

theorem entryOf?_put (c : ResultCache α τ) (now : τ) (key k : ResultKey) (value : α) :
    (c.put now key value).entryOf? k =
      if k = key then some ⟨now, c.serial, value⟩ else c.entryOf? k := by
  simp only [entryOf?, put]
  induction c.entries with
  | nil => by_cases h : k = key <;> simp [putEntry, h, eq_comm]
  | cons e rest ih =>
    obtain ⟨j, d⟩ := e
    unfold putEntry
    by_cases hj : j = key
    · by_cases hk : k = key <;> simp [hj, hk, eq_comm]
    · by_cases hk : j = k
      · subst hk
        simp [hj]
      · simp [hj, hk, ih]

theorem entryOf?_invalidate (c : ResultCache α τ) (root : Path) (k : ResultKey) :
    (c.invalidate root).entryOf? k = if k.root = root then none else c.entryOf? k := by
  simp only [entryOf?, invalidate]
  induction c.entries with
  | nil => simp
  | cons e rest ih =>
    obtain ⟨j, d⟩ := e
    by_cases hj : j = k
    · subst hj
      by_cases hr : j.root = root
      · simpa [hr] using ih
      · simp [hr]
    · by_cases hr : j.root = root <;> simpa [hr, hj] using ih

end ResultCache

end RouteLens
