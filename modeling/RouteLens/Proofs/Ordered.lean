import Mathlib.Data.List.Nodup
import RouteLens.Ordered

/-!
# Entries of ordered tables

What a table holds under a key after an entry was put, or another table was laid over it, and which
entry stands first.
-/

namespace RouteLens

namespace Ordered

variable {α : Type} {t : Ordered α} {key : String} {value : α}

theorem get?_put (key : String) (value : α) (t : Ordered α) (k : String) :
    (put key value t).get? k = if k = key then some value else t.get? k := by
  unfold get?
  induction t with
  | nil => by_cases hk : k = key <;> simp [put, hk, Ne.symm]
  | cons e t ih =>
    obtain ⟨k', v⟩ := e
    by_cases hkey : k' = key
    · subst hkey
      by_cases hk : k = k' <;> simp [put, hk, Ne.symm]
    · by_cases hk : k' = k
      · subst hk
        simp [put, hkey]
      · simpa [put, hkey, hk] using ih

theorem mem_keys_put {k : String} : k ∈ (put key value t).keys ↔ k = key ∨ k ∈ t.keys := by
  unfold keys
  induction t with
  | nil => simp [put]
  | cons e t ih =>
    by_cases hkey : e.1 = key
    · simp [put, hkey]
    · simp only [put, beq_iff_eq, hkey, if_false, List.map_cons, List.mem_cons, ih]
      exact or_left_comm

theorem nodup_keys_put (h : t.keys.Nodup) : (put key value t).keys.Nodup := by
  induction t with
  | nil => simp [put, keys]
  | cons e t ih =>
    obtain ⟨hnot, hnodup⟩ := List.nodup_cons.1 h
    by_cases hkey : e.1 = key
    · rw [put, if_pos (by simpa using hkey)]
      exact List.nodup_cons.2 ⟨hnot, hnodup⟩
    · rw [put, if_neg (by simpa using hkey)]
      refine List.nodup_cons.2 ⟨fun hmem => ?_, ih hnodup⟩
      rcases mem_keys_put.1 hmem with hmem | hmem
      · exact hkey hmem
      · exact hnot hmem

theorem get?_append (t u : Ordered α) (k : String) :
    get? (t ++ u) k = (t.get? k).or (u.get? k) := by
  simp only [get?, List.find?_append]
  cases t.find? (·.1 == k) <;> rfl

theorem mem_keys_iff {k : String} : k ∈ t.keys ↔ (t.get? k).isSome = true := by
  simp [keys, get?]

/-- The last entry that is laid over a table counts. -/
theorem get?_overlay (t u : Ordered α) (k : String) :
    (t.overlay u).get? k = (get? u.reverse k).or (t.get? k) := by
  induction u generalizing t with
  | nil => rfl
  | cons e u ih =>
    have hcons : t.overlay (e :: u) = (put e.1 e.2 t).overlay u := rfl
    rw [hcons, ih, get?_put, List.reverse_cons, get?_append, Option.or_assoc]
    by_cases hk : k = e.1
    · simp [hk, get?]
    · simp [hk, get?, Ne.symm hk]

theorem get?_reverse (h : t.keys.Nodup) (k : String) : get? t.reverse k = t.get? k := by
  induction t with
  | nil => rfl
  | cons e t ih =>
    obtain ⟨hnot, hnodup⟩ := List.nodup_cons.1 h
    rw [List.reverse_cons, get?_append, ih hnodup]
    by_cases hk : e.1 = k
    · have hnone : get? t k = none := by
        rw [← Option.not_isSome_iff_eq_none, ← mem_keys_iff]
        exact hk ▸ hnot
      rw [hnone, Option.none_or]
      simp [get?, hk]
    · simp [get?, hk]

theorem nodup_keys_overlay (h : t.keys.Nodup) (u : Ordered α) : (t.overlay u).keys.Nodup := by
  unfold overlay
  induction u generalizing t with
  | nil => exact h
  | cons e u ih => exact ih (nodup_keys_put h)

theorem keys_put (key : String) (value : α) (t : Ordered α) :
    (put key value t).keys = if key ∈ t.keys then t.keys else t.keys ++ [key] := by
  induction t with
  | nil => simp [put, keys]
  | cons e t ih =>
    by_cases hkey : e.1 = key
    · simp [put, keys, hkey]
    · have hput : put key value (e :: t) = e :: put key value t := by
        simp [put, hkey]
      have hcons (u : Ordered α) : keys (e :: u) = e.1 :: keys u := rfl
      rw [hput, hcons, hcons, ih]
      by_cases hmem : key ∈ keys t
      · simp [hmem]
      · simp [hmem, Ne.symm hkey]

theorem mem_of_get? {k : String} (h : t.get? k = some value) : (k, value) ∈ t := by
  obtain ⟨⟨k', v⟩, he, rfl⟩ := Option.map_eq_some_iff.1 h
  have hkey : k' = k := by simpa using List.find?_some he
  exact hkey ▸ List.mem_of_find?_eq_some he

/-- A table whose keys are all different holds each of its entries. -/
theorem get?_of_mem (h : t.keys.Nodup) {e : String × α} (he : e ∈ t) : t.get? e.1 = some e.2 := by
  obtain ⟨before, after, rfl⟩ := List.append_of_mem he
  have hbefore : get? before e.1 = none := by
    rw [← Option.not_isSome_iff_eq_none, ← mem_keys_iff]
    intro hmem
    rw [keys, List.map_append, List.map_cons, List.nodup_append] at h
    exact h.2.2 _ hmem _ List.mem_cons_self rfl
  rw [get?_append, hbefore]
  simp [get?]

theorem hasKey_iff {t : Ordered α} {k : String} : t.hasKey k = true ↔ k ∈ t.keys := by
  simp [hasKey, keys]

theorem mem_keys_putNew {k : String} :
    k ∈ (t.putNew key value).keys ↔ k = key ∨ k ∈ t.keys := by
  unfold putNew
  split
  · rename_i hkey
    rw [hasKey_iff] at hkey
    exact ⟨.inr, fun h => h.elim (fun h => h ▸ hkey) id⟩
  · simp [keys, or_comm]

theorem keys_overlay_nil (u : Ordered α) (k : String) :
    k ∈ (overlay [] u).keys ↔ k ∈ u.keys := by
  rw [mem_keys_iff, get?_overlay]
  have hrev : (get? u.reverse k).isSome = true ↔ k ∈ u.keys := by
    rw [← mem_keys_iff]
    simp [keys]
  rw [← hrev]
  simp [get?]

/-- The first entry of a table keeps its place and its key while others are put into it. -/
theorem head?_overlay (e : String × α) (t u : Ordered α) :
    ∃ v, (overlay (e :: t) u).head? = some (e.1, v) := by
  induction u generalizing e t with
  | nil => exact ⟨e.2, rfl⟩
  | cons d u ih =>
    have hcons : overlay (e :: t) (d :: u) = (put d.1 d.2 (e :: t)).overlay u := rfl
    rw [hcons, put]
    split
    · exact ih (e.1, d.2) t
    · exact ih e (put d.1 d.2 t)

/-- A table that is built from its entries starts with the key of the first one.  Its value is that
of the last entry with this key. -/
theorem head?_overlay_nil (e : String × α) (u : Ordered α) :
    ∃ v, (overlay [] (e :: u)).head? = some (e.1, v) ∧ get? (e :: u).reverse e.1 = some v := by
  obtain ⟨v, hv⟩ := head?_overlay e [] u
  have hcons : overlay [] (e :: u) = overlay [e] u := rfl
  refine ⟨v, hcons ▸ hv, ?_⟩
  have hget := get?_overlay [] (e :: u) e.1
  obtain ⟨rest, hrest⟩ := List.head?_eq_some_iff.1 hv
  rw [hcons, hrest] at hget
  simpa [get?] using hget.symm

theorem put_map {β : Type} (f : α → β) (key : String) (value : α) (t : Ordered α) :
    put key (f value) (t.map fun e => (e.1, f e.2)) =
      (put key value t).map fun e => (e.1, f e.2) := by
  induction t with
  | nil => rfl
  | cons e t ih =>
    by_cases hkey : e.1 = key
    · simp [put, hkey]
    · simpa [put, hkey] using ih

theorem overlay_map {β : Type} (f : α → β) (t u : Ordered α) :
    overlay (t.map fun e => (e.1, f e.2)) (u.map fun e => (e.1, f e.2)) =
      (overlay t u).map fun e => (e.1, f e.2) := by
  unfold overlay
  induction u generalizing t with
  | nil => rfl
  | cons e u ih =>
    rw [List.map_cons, List.foldl_cons, List.foldl_cons, ← ih, ← put_map]

end Ordered

end RouteLens
