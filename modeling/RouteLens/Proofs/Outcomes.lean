import RouteLens.Fault

/-!
# Results and expected faults

`Meets` says of a computation that may fail what its result is like, and which faults it may have.
It is carried over sequences of steps, loops and lists.
-/

namespace RouteLens

variable {α β : Type} {S T : Fault → Prop} {P Q : α → Prop} {R : β → Prop} {x : Except Fault α}

/-- A result has a property, or the fault is one of those that are expected. -/
inductive Meets (S : Fault → Prop) (P : α → Prop) : Except Fault α → Prop
  | ok {a : α} : P a → Meets S P (.ok a)
  | error {f : Fault} : S f → Meets S P (.error f)

/-- There is a result, or the fault is one of those that are expected. -/
abbrev Succeeds (S : Fault → Prop) (x : Except Fault α) : Prop :=
  Meets S (fun _ => True) x

theorem succeeds_ok (a : α) : Succeeds S (.ok a) :=
  .ok trivial

theorem Meets.mono (h : Meets S P x) (hS : ∀ f, S f → T f) (hP : ∀ a, P a → Q a) :
    Meets T Q x := by
  cases h with
  | ok ha => exact .ok (hP _ ha)
  | error hf => exact .error (hS _ hf)

theorem Meets.bind {f : α → Except Fault β} (h : Meets S P x) (hf : ∀ a, P a → Meets S R (f a)) :
    Meets S R (x >>= f) := by
  cases h with
  | ok ha => exact hf _ ha
  | error he => exact .error he

theorem Meets.map {f : α → β} (h : Meets S P x) (hf : ∀ a, P a → R (f a)) :
    Meets S R (x.map f) := by
  cases h with
  | ok ha => exact .ok (hf _ ha)
  | error he => exact .error he

theorem Meets.and_eq (h : Meets S P x) : Meets S (fun a => P a ∧ x = .ok a) x := by
  cases h with
  | ok ha => exact .ok ⟨ha, rfl⟩
  | error hf => exact .error hf

/-- Where no fault can come from, there is a result. -/
theorem Meets.exists_ok (h : Meets S P x) (hnone : ∀ f, ¬ S f) : ∃ a, x = .ok a ∧ P a := by
  cases h with
  | ok ha => exact ⟨_, rfl, ha⟩
  | error hf => exact (hnone _ hf).elim

theorem meets_foldlM {f : β → α → Except Fault β} {l : List α} {b : β} (hb : R b)
    (hf : ∀ b, R b → ∀ a ∈ l, Meets S R (f b a)) : Meets S R (l.foldlM f b) := by
  induction l generalizing b with
  | nil => exact .ok hb
  | cons a l ih =>
    rw [List.foldlM_cons]
    refine (hf b hb a List.mem_cons_self).bind fun b' hb' => ih hb' fun b hb a ha => ?_
    exact hf b hb a (List.mem_cons_of_mem _ ha)

theorem succeeds_mapM {f : α → Except Fault β} {l : List α}
    (hf : ∀ a ∈ l, Succeeds S (f a)) : Succeeds S (l.mapM f) := by
  induction l with
  | nil => exact succeeds_ok _
  | cons a l ih =>
    rw [List.mapM_cons]
    refine (hf a List.mem_cons_self).bind fun b _ => ?_
    exact (ih fun a ha => hf a (List.mem_cons_of_mem _ ha)).bind fun bs _ => succeeds_ok _

theorem succeeds_filterM {f : α → Except Fault Bool} {l : List α}
    (hf : ∀ a ∈ l, Succeeds S (f a)) : Succeeds S (l.filterM f) := by
  have haux (done : List α) : Succeeds S (l.filterAuxM f done) := by
    induction l generalizing done with
    | nil => exact succeeds_ok done
    | cons a l ih =>
      rw [List.filterAuxM]
      refine (hf a List.mem_cons_self).bind fun b _ => ih (fun a ha => ?_) _
      exact hf a (List.mem_cons_of_mem _ ha)
  exact (haux []).bind fun _ _ => succeeds_ok _

end RouteLens
