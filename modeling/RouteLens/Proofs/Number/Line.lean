import Mathlib.Order.Compare
import Mathlib.Order.WithBot
import RouteLens.Proofs.Number.Exact

/-!
# Places on the line

Where a floating-point number stands among the rational numbers with an end on either side: a
finite number at its value, an infinite one at an end, not-a-number nowhere.  Comparison of numbers
is comparison of places, and there is none beside not-a-number.
-/

namespace RouteLens

/-- The rational numbers with an end on either side. -/
abbrev Line := WithBot (WithTop ℚ)

namespace Line

/-- The place of a rational number. -/
def of (q : ℚ) : Line :=
  ((q : WithTop ℚ) : WithBot (WithTop ℚ))

@[simp] theorem of_lt_of {p q : ℚ} : of p < of q ↔ p < q := by
  rw [of, of, WithBot.coe_lt_coe, WithTop.coe_lt_coe]

@[simp] theorem of_inj {p q : ℚ} : of p = of q ↔ p = q := by
  rw [of, of, WithBot.coe_inj, WithTop.coe_inj]

@[simp] theorem bot_lt_of (q : ℚ) : ⊥ < of q :=
  WithBot.bot_lt_coe _

@[simp] theorem of_lt_top (q : ℚ) : of q < ⊤ :=
  WithBot.coe_lt_coe.mpr (WithTop.coe_lt_top q)

end Line

namespace Binary64

/-- Where a number stands; not-a-number stands nowhere. -/
def place? : Binary64 → Option Line
  | .nan => none
  | .infinite true => some ⊥
  | .infinite false => some ⊤
  | x@(.finite ..) => some (.of x.value)

theorem place?_of_isFinite {x : Binary64} (h : x.isFinite = true) :
    x.place? = some (.of x.value) := by
  cases x with
  | nan => cases h
  | infinite s => cases h
  | finite s m e hc => rfl

theorem place?_eq_none {x : Binary64} : x.place? = none ↔ x = .nan := by
  cases x with
  | nan => simp [place?]
  | infinite s => cases s <;> simp [place?]
  | finite s m e hc => simp [place?]

/-- Units compare as the rational numbers they make up. -/
theorem compares_units (a b : Int) :
    (compare a b).Compares (Line.of (a / unitsInOne)) (Line.of (b / unitsInOne)) := by
  rcases lt_trichotomy a b with h | rfl | h
  · rw [compare_lt_iff_lt.mpr h]
    exact Line.of_lt_of.mpr (div_lt_div_of_pos_right (Int.cast_lt.mpr h) unitsInOne_pos_rat)
  · rw [compare_eq_iff_eq.mpr rfl]
    rfl
  · rw [compare_gt_iff_gt.mpr h]
    exact Line.of_lt_of.mpr (div_lt_div_of_pos_right (Int.cast_lt.mpr h) unitsInOne_pos_rat)

/-- Two numbers compare as their places do. -/
theorem exists_compare? {x y : Binary64} {p q : Line} (hx : x.place? = some p)
    (hy : y.place? = some q) : ∃ o, compare? x y = some o ∧ o.Compares p q := by
  cases x with
  | nan => cases hx
  | infinite s =>
    cases y with
    | nan => cases hy
    | infinite t =>
      cases s <;> cases t <;> cases hx <;> cases hy <;>
        exact ⟨_, rfl, by simp [Ordering.Compares]⟩
    | finite t n f hd =>
      cases s <;> cases hx <;> cases hy <;> exact ⟨_, rfl, by simp [Ordering.Compares]⟩
  | finite s m e hc =>
    cases y with
    | nan => cases hy
    | infinite t =>
      cases t <;> cases hx <;> cases hy <;> exact ⟨_, rfl, by simp [Ordering.Compares]⟩
    | finite t n f hd =>
      cases hx
      cases hy
      exact ⟨_, rfl, compares_units _ _⟩

theorem compare?_nan_left (y : Binary64) : compare? .nan y = none := rfl

theorem compare?_nan_right (x : Binary64) : compare? x .nan = none := by
  cases x <;> rfl

/-- An integer and a number compare as their places do. -/
theorem exists_compareInt (n : Int) {y : Binary64} {q : Line} (hy : y.place? = some q) :
    ∃ o, compareInt n y = some o ∧ o.Compares (Line.of n) q := by
  cases y with
  | nan => cases hy
  | infinite t => cases t <;> cases hy <;> exact ⟨_, rfl, by simp [Ordering.Compares]⟩
  | finite t m f hd =>
    cases hy
    have hn : (n : ℚ) = (n * unitsInOne : Int) / unitsInOne := by
      rw [Int.cast_mul, Int.cast_natCast, mul_div_cancel_right₀ _ unitsInOne_pos_rat.ne']
    refine ⟨_, rfl, ?_⟩
    rw [hn]
    exact compares_units _ _

end Binary64

end RouteLens
