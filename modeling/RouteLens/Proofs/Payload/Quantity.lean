import RouteLens.Payload.Scalar
import RouteLens.Proofs.Number.Exact

/-!
# Exact values of quantities

What a bound is as a rational number.  On finite quantities comparison and rounding to an integer
are exact; a point given by bounds is computed exactly whenever the numbers met on the way are
floating-point numbers.
-/

namespace RouteLens

namespace Quantity

/-- A quantity that is a number. -/
def IsFinite : Quantity → Prop
  | .int _ => True
  | .float x => x.isFinite = true

instance (q : Quantity) : Decidable q.IsFinite :=
  match q with
  | .int _ => .isTrue trivial
  | .float x => inferInstanceAs (Decidable (x.isFinite = true))

/-- The rational number that a finite quantity is. -/
def value : Quantity → ℚ
  | .int n => n
  | .float x => x.value

/-- A finite quantity counted in the units of floating-point numbers. -/
def units : Quantity → Int
  | .int n => n * Binary64.unitsInOne
  | .float x => x.units

theorem value_eq_units (q : Quantity) : q.value = q.units / Binary64.unitsInOne := by
  cases q with
  | int n =>
    rw [value, units, Int.cast_mul, Int.cast_natCast,
      mul_div_cancel_right₀ _ Binary64.unitsInOne_pos_rat.ne']
  | float x => rfl

theorem value_lt_iff {a b : Quantity} : a.value < b.value ↔ a.units < b.units := by
  rw [value_eq_units, value_eq_units, div_lt_div_iff_of_pos_right Binary64.unitsInOne_pos_rat,
    Int.cast_lt]

theorem value_eq_iff {a b : Quantity} : a.value = b.value ↔ a.units = b.units := by
  rw [value_eq_units, value_eq_units, div_left_inj' Binary64.unitsInOne_pos_rat.ne', Int.cast_inj]

/-! ## Comparison -/

/-- Finite quantities compare as their units do. -/
theorem compare_eq {a b : Quantity} (ha : a.IsFinite) (hb : b.IsFinite) :
    a.compare? b = some (compare a.units b.units) := by
  have hpos : (0 : Int) < Binary64.unitsInOne := Int.natCast_pos.mpr Binary64.unitsInOne_pos
  cases a with
  | int m =>
    cases b with
    | int n =>
      have hmono : StrictMono fun k : Int => k * Binary64.unitsInOne :=
        fun _ _ h => mul_lt_mul_of_pos_right h hpos
      rw [compare?, units, units]
      rcases lt_trichotomy m n with h | rfl | h
      · rw [compare_lt_iff_lt.mpr h, compare_lt_iff_lt.mpr (hmono h)]
      · rw [compare_eq_iff_eq.mpr rfl, compare_eq_iff_eq.mpr rfl]
      · rw [compare_gt_iff_gt.mpr h, compare_gt_iff_gt.mpr (hmono h)]
    | float y =>
      cases y with
      | nan => cases hb
      | infinite t => cases hb
      | finite t n f hd => rfl
  | float x =>
    cases x with
    | nan => cases ha
    | infinite s => cases ha
    | finite s m e hc =>
      cases b with
      | int n =>
        rw [compare?, Binary64.compareInt, Option.map_some, units, units,
          ← Std.OrientedOrd.eq_swap]
      | float y =>
        cases y with
        | nan => cases hb
        | infinite t => cases hb
        | finite t n f hd => rfl

theorem lt_iff {a b : Quantity} (ha : a.IsFinite) (hb : b.IsFinite) :
    a.lt b = true ↔ a.value < b.value := by
  rw [lt, compare_eq ha hb, value_lt_iff, beq_iff_eq, Option.some_inj, compare_lt_iff_lt]

theorem eq_iff {a b : Quantity} (ha : a.IsFinite) (hb : b.IsFinite) :
    a.eq b = true ↔ a.value = b.value := by
  rw [eq, compare_eq ha hb, value_eq_iff, beq_iff_eq, Option.some_inj, compare_eq_iff_eq]

theorem IsFinite.least {a b : Quantity} (ha : a.IsFinite) (hb : b.IsFinite) :
    (a.least b).IsFinite := by
  unfold Quantity.least
  split
  · exact hb
  · exact ha

theorem IsFinite.greatest {a b : Quantity} (ha : a.IsFinite) (hb : b.IsFinite) :
    (a.greatest b).IsFinite := by
  unfold Quantity.greatest
  split
  · exact hb
  · exact ha

theorem value_least {a b : Quantity} (ha : a.IsFinite) (hb : b.IsFinite) :
    (a.least b).value = min a.value b.value := by
  have hlt := lt_iff hb ha
  unfold least
  split
  case isTrue h => exact (min_eq_right (hlt.mp h).le).symm
  case isFalse h => exact (min_eq_left (not_lt.mp (mt hlt.mpr h))).symm

theorem value_greatest {a b : Quantity} (ha : a.IsFinite) (hb : b.IsFinite) :
    (a.greatest b).value = max a.value b.value := by
  have hlt := lt_iff ha hb
  unfold greatest
  split
  case isTrue h => exact (max_eq_right (hlt.mp h).le).symm
  case isFalse h => exact (max_eq_left (not_lt.mp (mt hlt.mpr h))).symm

/-! ## Rounding to an integer -/

theorem floor_units (n : Int) :
    Int.fdiv n Binary64.unitsInOne = ⌊(n : ℚ) / Binary64.unitsInOne⌋ := by
  rw [Int.fdiv_eq_ediv_of_nonneg n (Int.natCast_nonneg _), Rat.floor_intCast_div_natCast]

theorem floor_eq {q : Quantity} (hq : q.IsFinite) : q.floor = .ok ⌊q.value⌋ := by
  cases q with
  | int n => rw [floor, rounded, value, Int.floor_intCast]
  | float x =>
    cases x with
    | nan => cases hq
    | infinite s => cases hq
    | finite s m e h =>
      exact congrArg Except.ok (floor_units _)

theorem ceil_eq {q : Quantity} (hq : q.IsFinite) : q.ceil = .ok ⌈q.value⌉ := by
  cases q with
  | int n => rw [ceil, rounded, value, Int.ceil_intCast]
  | float x =>
    cases x with
    | nan => cases hq
    | infinite s => cases hq
    | finite s m e h =>
      refine congrArg Except.ok ?_
      show -Int.fdiv (-(Binary64.finite s m e h).units) Binary64.unitsInOne = _
      rw [floor_units, Int.cast_neg, neg_div, Int.floor_neg, neg_neg]
      rfl

end Quantity

/-! ## Points -/

theorem Value.floatOfInt_eq {n : Int} (h : Binary64.IsRepresentable n) :
    ∃ x, Value.floatOfInt n = .ok x ∧ x.Denotes n := by
  obtain ⟨x, hx, hd⟩ := Binary64.exists_ofInt h
  exact ⟨x, by rw [Value.floatOfInt, hx, orFault_some], hd⟩

theorem Quantity.toFloat_eq {q : Quantity} (hq : q.IsFinite)
    (h : Binary64.IsRepresentable q.value) : ∃ x, q.toFloat = .ok x ∧ x.Denotes q.value := by
  cases q with
  | int n => exact Value.floatOfInt_eq h
  | float x => exact ⟨x, rfl, hq, rfl⟩

namespace Point

/-- The rational number that a point is, with exact arithmetic. -/
def value : Point → ℚ
  | .bound q => q.value
  | .beside q n => q.value + n
  | .midpoint a b => (a.value + b.value) / 2

/-- A point given by finite bounds. -/
def IsFinite : Point → Prop
  | .bound q => q.IsFinite
  | .beside q _ => q.IsFinite
  | .midpoint a b => a.IsFinite ∧ b.IsFinite

/-- The numbers that are met, each one rounded, when a point is computed. -/
def steps : Point → List ℚ
  | .bound q => [q.value]
  | .beside (.int m) n => [((m + n : Int) : ℚ)]
  | .beside (.float x) n => [(n : ℚ), x.value + n]
  | .midpoint (.int a) (.int b) => [((a + b : Int) : ℚ) / 2]
  | .midpoint a b => [a.value, b.value, a.value + b.value, (a.value + b.value) / 2]

/-- A point whose computation needs no rounding. -/
def IsExact (p : Point) : Prop :=
  ∀ x ∈ p.steps, Binary64.IsRepresentable x

/-- A sum and its half, each rounded. -/
theorem denotes_half {x y : Binary64} {p q : ℚ} (hx : x.Denotes p) (hy : y.Denotes q)
    (hsum : Binary64.IsRepresentable (p + q)) (hhalf : Binary64.IsRepresentable ((p + q) / 2)) :
    ((x.add y).div (.ofRatio false 2 1)).Denotes ((p + q) / 2) :=
  Binary64.denotes_div (Binary64.denotes_add hx hy hsum) Binary64.denotes_two two_ne_zero hhalf

/-- A mean that can be represented is computed exactly. -/
theorem midpoint_eq {a b : Quantity} (ha : a.IsFinite) (hb : b.IsFinite)
    (h : (Point.midpoint a b).IsExact) :
    ∃ x, a.midpoint b = .ok x ∧ x.Denotes ((a.value + b.value) / 2) := by
  -- Two integers are added exactly; any other two bounds become floating-point numbers first.
  have hmixed (hsteps : (Point.midpoint a b).steps =
        [a.value, b.value, a.value + b.value, (a.value + b.value) / 2])
      (hdef : a.midpoint b = do
        return ((← a.toFloat).add (← b.toFloat)).div (.ofRatio false 2 1)) :
      ∃ x, a.midpoint b = .ok x ∧ x.Denotes ((a.value + b.value) / 2) := by
    simp only [IsExact, hsteps, List.forall_mem_cons] at h
    obtain ⟨hpa, hpb, hsum, hhalf, -⟩ := h
    obtain ⟨x, hx, hdx⟩ := Quantity.toFloat_eq ha hpa
    obtain ⟨y, hy, hdy⟩ := Quantity.toFloat_eq hb hpb
    exact ⟨_, by rw [hdef, hx, hy]; rfl, denotes_half hdx hdy hsum hhalf⟩
  cases a with
  | int m =>
    cases b with
    | int n =>
      have hstep := h (((m + n : Int) : ℚ) / 2) (by simp [steps])
      obtain ⟨x, hx, hd⟩ := Binary64.exists_ofIntRatio (n := m + n) (d := 2) (by decide)
        (by simpa using hstep)
      refine ⟨x, ?_, by simpa [Quantity.value] using hd⟩
      rw [Quantity.midpoint, hx, orFault_some]
    | float y => exact hmixed rfl rfl
  | float x => exact hmixed (by cases b <;> rfl) (by cases b <;> rfl)

/-- Without rounding a point is computed as the rational number that it is. -/
theorem toFloat_eq {p : Point} (hp : p.IsFinite) (h : p.IsExact) :
    ∃ x, p.toFloat = .ok x ∧ x.Denotes p.value := by
  cases p with
  | bound q => exact Quantity.toFloat_eq hp (h _ (List.mem_singleton_self _))
  | beside q n =>
    cases q with
    | int m =>
      obtain ⟨x, hx, hd⟩ := Value.floatOfInt_eq (h _ (List.mem_singleton_self _))
      refine ⟨x, ?_, by simpa [value, Quantity.value] using hd⟩
      rw [toFloat, Quantity.shift, ok_bind, Quantity.toFloat, hx]
    | float y =>
      have hn := h n (by simp [steps])
      have hsum := h (y.value + n) (by simp [steps])
      obtain ⟨x, hx, hd⟩ := Value.floatOfInt_eq hn
      refine ⟨y.add x, ?_, Binary64.denotes_add ⟨hp, rfl⟩ hd hsum⟩
      rw [toFloat, Quantity.shift, hx, ok_bind, pure_eq_ok, ok_bind, Quantity.toFloat]
  | midpoint a b => exact midpoint_eq hp.1 hp.2 h

end Point

end RouteLens
