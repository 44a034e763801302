import RouteLens.Proofs.Payload.Bounds

/-!
# Samples within their bounds

A sample of a scalar lies within the bounds that the facts keep, whenever anything does.  Lengths
and integers are computed exactly; a floating-point sample is taken at a point, and the statement is
about the rational number that the point is.
-/

namespace RouteLens.FieldFacts

variable {t : FieldFacts}

/-! ## Texts -/

/-- The bound of a side, on the side of the integers. -/
theorem outermostInt_eq (ht : t.HasFiniteBounds) (side : Side) :
    ∃ bound, t.outermostInt? side = .ok bound ∧ ∀ z : Int, (∀ b ∈ bound, side.Meets b false z) ↔
      ∀ q ∈ t.bound? side, side.Meets q.value (t.isExclusive side) (z : ℚ) := by
  unfold outermostInt?
  cases hm : t.bound? side with
  | none => exact ⟨none, rfl, by simp⟩
  | some m =>
    have hf := ht.bound side m hm
    cases t.isExclusive side with
    | true =>
      obtain ⟨n, hn, hmeets⟩ := Side.pastInt_eq hf side
      exact ⟨some n, by simp [hn], by simpa using hmeets⟩
    | false =>
      obtain ⟨n, hn, hmeets⟩ := Side.atInt_eq hf side
      exact ⟨some n, by simp [hn], by simpa using hmeets⟩

/-- One, moved between two bounds that have an integer between them. -/
theorem clampOne_between {least greatest : Option Int} {y : Int} (hl : ∀ l ∈ least, l ≤ y)
    (hg : ∀ g ∈ greatest, y ≤ g) :
    (∀ l ∈ least, l ≤ clampOne least greatest) ∧ ∀ g ∈ greatest, clampOne least greatest ≤ g := by
  cases least with
  | none =>
    cases greatest with
    | none => simp
    | some g => simp [clampOne]
  | some l =>
    cases greatest with
    | none => simp [clampOne]
    | some g =>
      have hle : l ≤ g := (hl l rfl).trans (hg g rfl)
      simp [clampOne]
      omega

theorem admitsOn_iff (ht : t.HasFiniteBounds) {q : Quantity} (hq : q.IsFinite) (side : Side) :
    t.admitsOn q side = true ↔
      ∀ m ∈ t.bound? side, side.Meets m.value (t.isExclusive side) q.value := by
  unfold admitsOn
  cases hm : t.bound? side with
  | none => simp
  | some m =>
    have hf := ht.bound side m hm
    rw [Option.all_some, Bool.not_eq_true', ← Bool.not_eq_true, Bool.or_eq_true, Bool.and_eq_true,
      Side.exceeds_iff hf hq, Quantity.eq_iff hq hf, ← Side.meets_iff_not]
    simp

/-- The check on a sample is exact. -/
theorem admits_iff (ht : t.HasFiniteBounds) {q : Quantity} (hq : q.IsFinite) :
    t.admits q = true ↔ t.AdmitsNumber q.value := by
  rw [admits, Bool.and_eq_true, admitsOn_iff ht hq, admitsOn_iff ht hq]
  rfl

theorem isFinite_clampUnit (ht : t.HasFiniteBounds) : t.clampUnit.IsFinite := by
  have hone : (Quantity.float .one).IsFinite := rfl
  unfold clampUnit
  cases hhi : t.maximum with
  | none =>
    cases hlo : t.minimum with
    | none => exact hone
    | some lo => exact hone.greatest (ht.1 lo hlo)
  | some hi =>
    cases hlo : t.minimum with
    | none => exact hone.least (ht.2 hi hhi)
    | some lo => exact (hone.least (ht.2 hi hhi)).greatest (ht.1 lo hlo)

/-- Between two bounds that are one number, one is moved to that number. -/
theorem value_clampUnit {lo hi : Quantity} (ht : t.HasFiniteBounds) (hlo : t.minimum = some lo)
    (hhi : t.maximum = some hi) (heq : hi.value ≤ lo.value) : t.clampUnit.value = lo.value := by
  have hone : (Quantity.float .one).IsFinite := rfl
  have hf := hone.least (ht.2 hi hhi)
  simp only [clampUnit, hlo, hhi]
  rw [Quantity.value_greatest hf (ht.1 lo hlo), Quantity.value_least hone (ht.2 hi hhi)]
  exact max_eq_right ((min_le_right _ _).trans heq)

theorem isFinite_floatPoint (ht : t.HasFiniteBounds) : t.floatPoint.IsFinite := by
  unfold floatPoint
  split
  · exact isFinite_clampUnit ht
  · split
    case h_1 lo hi hlo hhi =>
      have hl := ht.1 lo hlo
      split
      · exact ⟨hl, ht.2 hi hhi⟩
      · split <;> exact hl
    case h_2 lo hlo hhi =>
      have hl := ht.1 lo hlo
      split <;> exact hl
    case h_3 hi hlo hhi => exact ht.2 hi hhi
    case h_4 => rfl

/-- The point that a sample is taken at is admitted, if any number is. -/
theorem admitsNumber_floatPoint (ht : t.HasFiniteBounds) (h : ∃ x, t.AdmitsNumber x) :
    t.AdmitsNumber t.floatPoint.value := by
  obtain ⟨x, hx⟩ := h
  unfold floatPoint
  split
  case isTrue hadmits => exact (admits_iff ht (isFinite_clampUnit ht)).mp hadmits
  case isFalse hadmits =>
    split
    case h_1 lo hi hlo hhi =>
      have hlt := Quantity.lt_iff (ht.1 lo hlo) (ht.2 hi hhi)
      split
      case isTrue h =>
        -- Strictly between two bounds it does not matter whether they are open.
        have hval := hlt.mp h
        have hlow : lo.value < (lo.value + hi.value) / 2 := by linarith
        have hhigh : (lo.value + hi.value) / 2 < hi.value := by linarith
        exact ⟨by simpa [hlo, Quantity.Below, Point.value] using Side.meets_of_outside .lower hlow,
          by simpa [hhi, Quantity.Above, Point.value] using Side.meets_of_outside .upper hhigh⟩
      case isFalse h =>
        -- The two bounds are one number, which the clamped sample would have been.
        have hle : hi.value ≤ lo.value := not_lt.mp (mt hlt.mpr h)
        have hxlo := not_lt.mp (hx.1 lo hlo).not_outside
        have hxhi := not_lt.mp (hx.2 hi hhi).not_outside
        have hval : t.clampUnit.value = x := by
          rw [value_clampUnit ht hlo hhi hle]
          linarith
        exact absurd ((admits_iff ht (isFinite_clampUnit ht)).mpr (hval ▸ hx)) hadmits
    case h_2 lo hlo hhi =>
      refine ⟨?_, by simp [hhi]⟩
      split
      case isTrue he =>
        have hlt : lo.value < lo.value + ((1 : Int) : ℚ) := by simp
        simpa [hlo, Quantity.Below, Point.value] using Side.meets_of_outside .lower hlt
      case isFalse he => simp [hlo, Quantity.Below, Side.Meets, he, Point.value]
    case h_3 hi hlo hhi =>
      have hlt : hi.value + ((-1 : Int) : ℚ) < hi.value := by simp
      refine ⟨by simp [hlo], ?_⟩
      simpa [hhi, Quantity.Above, Point.value] using Side.meets_of_outside .upper hlt
    case h_4 hlo hhi => exact ⟨by simp [hlo], by simp [hhi]⟩

end RouteLens.FieldFacts
