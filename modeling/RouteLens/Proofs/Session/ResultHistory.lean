import Mathlib.Data.Set.Card
import Mathlib.Algebra.Order.Group.Defs
import RouteLens.ResultCache

/-!
# Results along a history

A result cache together with the clock it reads, and the events that can happen to the two.  What
the cache holds after a history is read off the history alone: under each key the entry of the last
put, unless the key's root was invalidated or everything was cleared since (`entryOf?_after_iff`).
The clock decides which of these entries are read, and nothing that is read changes the cache.

Times are of any type that can tell whether a limit has passed.  Over exact numbers
(`exactTimeline`) this is a comparison of the time that has elapsed with the limit.
-/

namespace RouteLens

variable {α τ : Type}

/-- Numbers with an exact difference are times: a limit has passed when the difference reaches
it. -/
instance (priority := low) exactTimeline [AddGroup τ] [LinearOrder τ] : Timeline τ where
  hasPassed limit since now := decide (limit ≤ now - since)

/-- What can happen to a result cache, or to the clock that it reads. -/
inductive CacheEvent (α τ : Type) where
  | put (key : ResultKey) (value : α)
  | get (key : ResultKey)
  | invalidate (root : Path)
  | clear
  | clock (now : τ)

/-- A result cache and what its clock reads. -/
structure TimedCache (α τ : Type) where
  cache : ResultCache α τ
  now : τ

namespace CacheEvent

/-- What an event makes of a cache and its clock; the root of an invalidation is resolved first. -/
def apply (directory : Path) (s : TimedCache α τ) : CacheEvent α τ → TimedCache α τ
  | put key value => { s with cache := s.cache.put s.now key value }
  | get _ => s
  | invalidate root => { s with cache := s.cache.invalidate (Path.resolve directory root) }
  | clear => { s with cache := s.cache.clear }
  | clock now => { s with now := now }

/-- Whether an event drops what is kept under a key. -/
def drops (directory : Path) (key : ResultKey) : CacheEvent α τ → Prop
  | invalidate root => Path.resolve directory root = key.root
  | clear => True
  | _ => False

/-- Whether an event puts something under a key. -/
def puts (key : ResultKey) : CacheEvent α τ → Prop
  | put k _ => k = key
  | _ => False

/-- What the clock reads after a history. -/
def clockAfter (start : τ) : List (CacheEvent α τ) → τ
  | [] => start
  | clock now :: rest => clockAfter now rest
  | _ :: rest => clockAfter start rest

/-- How many results a history puts in. -/
def putCount : List (CacheEvent α τ) → Nat
  | [] => 0
  | put _ _ :: rest => putCount rest + 1
  | _ :: rest => putCount rest

/-- The entry that the last put under a key made, when nothing has dropped it since. -/
def LastPut (directory : Path) (start : τ) (history : List (CacheEvent α τ)) (key : ResultKey)
    (e : CacheEntry α τ) : Prop :=
  ∃ before later, history = before ++ put key e.value :: later ∧
    (∀ event ∈ later, ¬ event.puts key ∧ ¬ event.drops directory key) ∧
    e.time = clockAfter start before ∧ e.serial = putCount before

variable {directory : Path} {start : τ} {history : List (CacheEvent α τ)} {event : CacheEvent α τ}
  {key : ResultKey} {e : CacheEntry α τ}

/-- The last put after one more event: either the event is that put, or it leaves it alone. -/
theorem lastPut_concat :
    LastPut directory start (history ++ [event]) key e ↔
      (event = put key e.value ∧ e.time = clockAfter start history ∧ e.serial = putCount history) ∨
      (¬ event.puts key ∧ ¬ event.drops directory key ∧ LastPut directory start history key e) := by
  constructor
  · rintro ⟨before, later, heq, hlater, htime, hserial⟩
    -- the put that is last in the longer history is its last event, or stands before it
    rcases List.eq_nil_or_concat later with rfl | ⟨later, last, rfl⟩
    · obtain ⟨rfl, rfl⟩ := List.append_inj' heq rfl |>.imp id List.cons.inj |>.imp id And.left
      exact .inl ⟨rfl, htime, hserial⟩
    · rw [List.concat_eq_append, ← List.cons_append, ← List.append_assoc] at heq
      obtain ⟨rfl, hlast⟩ := List.append_inj' heq rfl
      obtain rfl := List.head_eq_of_cons_eq hlast
      have hevent := hlater event (by simp)
      refine .inr ⟨hevent.1, hevent.2, before, later, rfl, fun d hd => ?_, htime, hserial⟩
      exact hlater d (by simp [hd])
  · rintro (⟨rfl, htime, hserial⟩ | ⟨hputs, hdrops, before, later, rfl, hlater, htime, hserial⟩)
    · exact ⟨history, [], rfl, by simp, htime, hserial⟩
    · refine ⟨before, later ++ [event], by simp, fun d hd => ?_, htime, hserial⟩
      rcases List.mem_append.1 hd with hd | hd
      · exact hlater d hd
      · rw [List.mem_singleton.1 hd]
        exact ⟨hputs, hdrops⟩

end CacheEvent

namespace TimedCache

open CacheEvent

/-- An empty cache, and the first reading of its clock. -/
def initial (ttl start : τ) : TimedCache α τ :=
  ⟨{ ttl }, start⟩

/-- A cache and its clock after a history. -/
def after (directory : Path) (s : TimedCache α τ) (history : List (CacheEvent α τ)) :
    TimedCache α τ :=
  history.foldl (CacheEvent.apply directory) s

theorem after_concat (directory : Path) (s : TimedCache α τ) (history : List (CacheEvent α τ))
    (event : CacheEvent α τ) :
    s.after directory (history ++ [event]) = event.apply directory (s.after directory history) := by
  simp [after]

variable {directory : Path} {s : TimedCache α τ} {event : CacheEvent α τ} {key : ResultKey}
  {e : CacheEntry α τ}

theorem now_after (history : List (CacheEvent α τ)) :
    (s.after directory history).now = clockAfter s.now history := by
  induction history generalizing s with
  | nil => rfl
  | cons event rest ih => cases event <;> exact ih

theorem serial_after (history : List (CacheEvent α τ)) :
    (s.after directory history).cache.serial = s.cache.serial + putCount history := by
  induction history generalizing s with
  | nil => rfl
  | cons event rest ih =>
    refine (ih (s := event.apply directory s)).trans ?_
    cases event <;>
      simp only [CacheEvent.apply, ResultCache.put, ResultCache.invalidate, ResultCache.clear,
        putCount]
    omega

theorem ttl_after (history : List (CacheEvent α τ)) :
    (s.after directory history).cache.ttl = s.cache.ttl := by
  induction history generalizing s with
  | nil => rfl
  | cons event rest ih => cases event <;> exact ih

/-! ### One event -/

/-- What is kept under a key after one event. -/
theorem entryOf?_apply :
    (event.apply directory s).cache.entryOf? key = some e ↔
      (event = .put key e.value ∧ e.time = s.now ∧ e.serial = s.cache.serial) ∨
      (¬ event.puts key ∧ ¬ event.drops directory key ∧ s.cache.entryOf? key = some e) := by
  cases event with
  | put k value =>
    simp only [CacheEvent.apply, ResultCache.entryOf?_put, puts, drops]
    by_cases hk : key = k
    · subst hk
      obtain ⟨time, serial, v⟩ := e
      simp [eq_comm, and_left_comm, and_comm]
    · simp [hk, eq_comm]
  | invalidate root =>
    simp only [CacheEvent.apply, ResultCache.entryOf?_invalidate, puts, drops]
    by_cases hr : key.root = Path.resolve directory root
    · simp [hr]
    · simp [hr, eq_comm]
  | get k => simp [CacheEvent.apply, puts, drops]
  | clear => simp [CacheEvent.apply, puts, drops]
  | clock now => simp [CacheEvent.apply, puts, drops]

/-- Putting an entry in adds its key unless it is there. -/
theorem keys_putEntry (entries : List (ResultKey × CacheEntry α τ)) :
    (ResultCache.putEntry key e entries).map Prod.fst =
      if key ∈ entries.map Prod.fst then entries.map Prod.fst
      else entries.map Prod.fst ++ [key] := by
  induction entries with
  | nil => simp [ResultCache.putEntry]
  | cons d rest ih =>
    obtain ⟨k, d⟩ := d
    by_cases hk : k = key
    · simp [ResultCache.putEntry, hk]
    · by_cases hmem : key ∈ rest.map Prod.fst
      · simp_all [ResultCache.putEntry]
      · simp_all [ResultCache.putEntry, eq_comm]

theorem nodup_keys_apply (h : (s.cache.entries.map Prod.fst).Nodup) :
    ((event.apply directory s).cache.entries.map Prod.fst).Nodup := by
  cases event with
  | put k value =>
    simp only [CacheEvent.apply, ResultCache.put, keys_putEntry]
    split
    case isTrue => exact h
    case isFalse hk => exact List.concat_eq_append ▸ (List.nodup_concat _ _).2 ⟨hk, h⟩
  | invalidate root => exact h.sublist (List.filter_sublist.map _)
  | get k => exact h
  | clear => exact List.nodup_nil
  | clock now => exact h

/-! ### Whole histories -/

/-- What is kept under a key after a history is the entry of the last put that nothing dropped. -/
theorem entryOf?_after_iff (ttl start : τ) (history : List (CacheEvent α τ)) :
    ((initial ttl start).after directory history).cache.entryOf? key = some e ↔
      LastPut directory start history key e := by
  induction history using List.reverseRecOn with
  | nil =>
    constructor
    · intro h
      cases h
    · rintro ⟨before, later, h, -⟩
      simp at h
  | append_singleton history event ih =>
    rw [after_concat, entryOf?_apply, lastPut_concat, ih, now_after, serial_after]
    simp [initial]

theorem nodup_keys_after (ttl start : τ) (history : List (CacheEvent α τ)) :
    (((initial ttl start).after directory history).cache.entries.map Prod.fst).Nodup := by
  induction history using List.reverseRecOn with
  | nil => exact List.nodup_nil
  | append_singleton history event ih =>
    rw [after_concat]
    exact nodup_keys_apply ih

/-- When no key stands twice in a cache, its size is the number of the keys it has entries for. -/
theorem size_eq_ncard (c : ResultCache α τ) (h : (c.entries.map Prod.fst).Nodup) :
    c.size = {key | ∃ e, c.entryOf? key = some e}.ncard := by
  have hkeys : {key | ∃ e, c.entryOf? key = some e} =
      ((c.entries.map Prod.fst).toFinset : Set _) := by
    ext key
    rw [Set.mem_ofPred_eq, ← Option.isSome_iff_exists, ResultCache.entryOf?, Option.isSome_map,
      List.find?_isSome]
    simp
  rw [hkeys, Set.ncard_coe_finset, List.toFinset_card_of_nodup h, List.length_map, ResultCache.size]

/-- What is read under a key after a history, by any kind of time. -/
theorem get?_after_iff [Timeline τ] (ttl start now : τ) (history : List (CacheEvent α τ)) :
    ((initial ttl start).after directory history).cache.get? now key = some e ↔
      LastPut directory start history key e ∧ Timeline.hasPassed ttl e.time now = false := by
  rw [ResultCache.get?, Option.filter_eq_some_iff, entryOf?_after_iff, ResultCache.isExpired,
    ttl_after]
  simp [initial]

/-- The history law.  After any history of puts, reads, invalidations, clearings and clock readings
by exact numbers, a key reads as the entry of its last put, as long as no later event dropped it and
less than the time to live has passed since; otherwise it reads as absent.  The size counts the keys
that have such a put, whatever time has passed. -/
theorem get?_and_size_of_history [AddGroup τ] [LinearOrder τ] (directory : Path) (ttl start : τ)
    (history : List (CacheEvent α τ)) :
    let s := (initial ttl start).after directory history
    (∀ key e, s.cache.get? s.now key = some e ↔
      LastPut directory start history key e ∧ clockAfter start history - e.time < ttl) ∧
    s.cache.size = {key | ∃ e, LastPut directory start history key e}.ncard := by
  intro s
  constructor
  · intro key e
    have hnow : s.now = clockAfter start history := now_after history
    rw [get?_after_iff, hnow, ← not_le]
    exact and_congr_right' decide_eq_false_iff_not
  · simp only [size_eq_ncard s.cache (nodup_keys_after ttl start history), s, entryOf?_after_iff]

end TimedCache

end RouteLens
