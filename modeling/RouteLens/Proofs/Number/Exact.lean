import Mathlib.Algebra.Order.Floor.Ring
import Mathlib.Data.Rat.Floor
import RouteLens.Value.Arithmetic

/-!
# Exact values of floating-point numbers

The rational number that a finite floating-point number is, and when an operation returns it: every
operation rounds its exact result once, so it is exact as soon as that result is a floating-point
number itself.
-/

namespace RouteLens.Binary64

/-- The rational number that a finite number is. -/
def value (x : Binary64) : ℚ :=
  x.units / unitsInOne

/-- A finite number that is a given rational number. -/
structure Denotes (x : Binary64) (q : ℚ) : Prop where
  isFinite : x.isFinite = true
  value_eq : x.value = q

/-- A rational number that some finite number is. -/
def IsRepresentable (q : ℚ) : Prop :=
  ∃ x : Binary64, x.Denotes q

theorem unitsInOne_pos : 0 < unitsInOne := by
  unfold unitsInOne
  rw [Nat.shiftLeft_eq]
  positivity

theorem unitsInOne_pos_rat : (0 : ℚ) < unitsInOne :=
  Nat.cast_pos.mpr unitsInOne_pos

/-! ## Rounding an exact result -/

/-- The scale that rounding picks for a canonical number of units is its own. -/
theorem log2_units {m e : Nat} (h : IsCanonical m e) : (m <<< e).log2 - 52 = e := by
  obtain ⟨hm, -, he⟩ := h
  rw [Nat.shiftLeft_eq] at hm he ⊢
  rcases he with rfl | he
  · have : m.log2 < 53 := by
      rcases Nat.eq_zero_or_pos m with rfl | hpos
      · decide
      · exact (Nat.log2_lt hpos.ne').mpr (by simpa using hm)
    simp only [Nat.pow_zero, Nat.mul_one]
    omega
  · have hne : m * 2 ^ e ≠ 0 := by
      have : 0 < 2 ^ e := Nat.two_pow_pos e
      have : 0 < m := by omega
      positivity
    have hlow : 52 + e ≤ (m * 2 ^ e).log2 := by
      rw [Nat.le_log2 hne, Nat.pow_add]
      exact Nat.mul_le_mul_right _ (by simpa using he)
    have hhigh : (m * 2 ^ e).log2 < 53 + e := by
      rw [Nat.log2_lt hne, Nat.pow_add]
      exact Nat.mul_lt_mul_of_pos_right (by simpa using hm) (Nat.two_pow_pos e)
    omega

theorem roundDiv_mul (m : Nat) {d : Nat} (hd : 0 < d) : roundDiv (m * d) d = m := by
  have hne : ¬ (d < 2 * 0 ∨ (d = 2 * 0 ∧ m % 2 = 1)) := by omega
  simp only [roundDiv, Nat.mul_div_cancel m hd, Nat.mul_mod_left, if_neg hne]

/-- A ratio that is a canonical number of units is rounded to that number. -/
theorem ofRatio_of_units (s : Bool) {n d m e : Nat} (hd : 0 < d) (h : IsCanonical m e)
    (hn : n * unitsInOne = (m <<< e) * d) : ofRatio s n d = .finite s m e h := by
  have hmul : (m <<< e) * d = m * (d <<< e) := by
    rw [Nat.shiftLeft_eq, Nat.shiftLeft_eq, Nat.mul_assoc, Nat.mul_comm (2 ^ e)]
  have hpos : 0 < d <<< e := by
    rw [Nat.shiftLeft_eq]
    exact Nat.mul_pos hd (Nat.two_pow_pos e)
  have hscale : (n * unitsInOne / d).log2 - 52 = e := by
    rw [hn, Nat.mul_div_cancel _ hd, log2_units h]
  have hround : roundDiv (n * unitsInOne) (d <<< e) = m := by
    rw [hn, hmul, roundDiv_mul m hpos]
  have hlt : m ≠ 1 <<< 53 := Nat.ne_of_lt h.1
  simp only [ofRatio, hscale, hround, if_neg hlt, ofParts, dif_pos h]

/-! ## The value of a result -/

/-- The factor of a sign. -/
def sign (negative : Bool) : ℚ :=
  if negative then -1 else 1

theorem abs_sign (s : Bool) : |sign s| = 1 := by
  cases s <;> simp [sign]

theorem sign_xor (s t : Bool) : sign (s != t) = sign s / sign t := by
  cases s <;> cases t <;> simp [sign]

theorem intCast_eq_sign_mul (n : Int) : (n : ℚ) = sign (decide (n < 0)) * n.natAbs := by
  rcases lt_or_ge n 0 with h | h
  · simp [sign, h, abs_of_neg]
  · simp [sign, h.not_gt, abs_of_nonneg h]

theorem value_finite (s : Bool) {m e : Nat} (h : IsCanonical m e) :
    value (.finite s m e h) = sign s * ((m <<< e : Nat) / unitsInOne) := by
  cases s with
  | false =>
    simp only [value, units, sign, Bool.false_eq_true, if_false, Int.cast_natCast, one_mul]
  | true =>
    simp only [value, units, sign, if_true, Int.cast_neg, Int.cast_natCast, neg_div, neg_one_mul]

/-- The magnitude of a representable number, in units. -/
theorem IsRepresentable.exists_units {q : ℚ} (h : IsRepresentable q) :
    ∃ m e, IsCanonical m e ∧ |q| * unitsInOne = (m <<< e : Nat) := by
  obtain ⟨x, hx, rfl⟩ := h
  cases x with
  | nan => cases hx
  | infinite s => cases hx
  | finite s m e hc =>
    refine ⟨m, e, hc, ?_⟩
    rw [value_finite, abs_mul, abs_sign, one_mul,
      abs_of_nonneg (div_nonneg (Nat.cast_nonneg _) (Nat.cast_nonneg _)),
      div_mul_cancel₀ _ unitsInOne_pos_rat.ne']

/-- A canonical number of units as a ratio. -/
theorem denotes_finite {n d m e : Nat} (hd : 0 < d) (h : IsCanonical m e)
    (hn : n * unitsInOne = (m <<< e) * d) : (finite false m e h).Denotes ((n : ℚ) / d) := by
  refine ⟨rfl, ?_⟩
  have hd' : (d : ℚ) ≠ 0 := Nat.cast_ne_zero.mpr hd.ne'
  have hn' : (n : ℚ) * unitsInOne = (m <<< e : Nat) * d := by exact_mod_cast hn
  rw [value_finite, sign, if_neg Bool.false_ne_true, one_mul,
    div_eq_div_iff unitsInOne_pos_rat.ne' hd', hn']

/-- Rounding a representable ratio changes nothing. -/
theorem denotes_ofRatio {s : Bool} {n d : Nat} {q : ℚ} (hd : 0 < d)
    (hq : q = sign s * (n / d)) (h : IsRepresentable q) : (ofRatio s n d).Denotes q := by
  obtain ⟨m, e, hc, hunits⟩ := h.exists_units
  have hd' : (0 : ℚ) < d := Nat.cast_pos.mpr hd
  have habs : |q| = n / d := by
    rw [hq, abs_mul, abs_sign, one_mul, abs_of_nonneg (by positivity)]
  rw [habs] at hunits
  have hn : n * unitsInOne = (m <<< e) * d := by
    have : ((n * unitsInOne : Nat) : ℚ) = ((m <<< e) * d : Nat) := by
      rw [Nat.cast_mul, Nat.cast_mul, ← hunits]
      field_simp
    exact_mod_cast this
  rw [ofRatio_of_units s hd hc hn]
  refine ⟨rfl, ?_⟩
  rw [value_finite, ← hunits, mul_div_cancel_right₀ _ unitsInOne_pos_rat.ne', hq]

theorem denotes_zero (s : Bool) : (zero s).Denotes 0 := by
  refine ⟨rfl, ?_⟩
  simp [zero, value_finite]

/-! ## Operations with a representable result -/

theorem denotes_ofUnits {n : Int} (s : Bool) (h : IsRepresentable ((n : ℚ) / unitsInOne)) :
    (ofUnits n s).Denotes (n / unitsInOne) := by
  unfold ofUnits
  split
  case isTrue hn =>
    rw [hn, Int.cast_zero, zero_div]
    exact denotes_zero s
  case isFalse hn =>
    refine denotes_ofRatio unitsInOne_pos ?_ h
    rw [← mul_div_assoc, ← intCast_eq_sign_mul]

theorem denotes_add {x y : Binary64} {p q : ℚ} (hx : x.Denotes p) (hy : y.Denotes q)
    (h : IsRepresentable (p + q)) : (x.add y).Denotes (p + q) := by
  obtain ⟨hx, rfl⟩ := hx
  obtain ⟨hy, rfl⟩ := hy
  have hsum : x.value + y.value = ((x.units + y.units : Int) : ℚ) / unitsInOne := by
    rw [value, value, Int.cast_add, add_div]
  rw [hsum] at h ⊢
  cases x with
  | nan => cases hx
  | infinite s => cases hx
  | finite s m e hc =>
    cases y with
    | nan => cases hy
    | infinite t => cases hy
    | finite t n f hd => exact denotes_ofUnits _ h

/-- A quotient that can be represented is computed exactly. -/
theorem denotes_div {x y : Binary64} {p q : ℚ} (hx : x.Denotes p) (hy : y.Denotes q)
    (hne : q ≠ 0) (h : IsRepresentable (p / q)) : (x.div y).Denotes (p / q) := by
  obtain ⟨hx, rfl⟩ := hx
  obtain ⟨hy, rfl⟩ := hy
  cases x with
  | nan => cases hx
  | infinite s => cases hx
  | finite s m e hc =>
    cases y with
    | nan => cases hy
    | infinite t => cases hy
    | finite t n f hd =>
      have hn : n ≠ 0 := by
        rintro rfl
        exact hne (by simp [value_finite])
      have hpos : 0 < n <<< f := by
        rw [Nat.shiftLeft_eq]
        exact Nat.mul_pos (Nat.pos_of_ne_zero hn) (Nat.two_pow_pos f)
      rw [div, if_neg hn]
      split
      case isTrue hm =>
        subst hm
        simpa [value_finite] using denotes_zero (s != t)
      case isFalse hm =>
        refine denotes_ofRatio hpos ?_ h
        rw [value_finite, value_finite, mul_div_mul_comm,
          div_div_div_cancel_right₀ unitsInOne_pos_rat.ne', sign_xor]

theorem denotes_two : (ofRatio false 2 1).Denotes 2 := by
  have h : IsRepresentable ((2 : Nat) / (1 : Nat)) :=
    ⟨.finite false (1 <<< 52) 1023 (by decide), denotes_finite Nat.one_pos _ (by decide +kernel)⟩
  exact denotes_ofRatio Nat.one_pos (by simp [sign]) (by simpa using h)

theorem exists_ofInt {n : Int} (h : IsRepresentable n) :
    ∃ x, ofInt? n = some x ∧ x.Denotes n := by
  have hx : (ofRatio (decide (n < 0)) n.natAbs 1).Denotes n :=
    denotes_ofRatio Nat.one_pos (by rw [Nat.cast_one, div_one, ← intCast_eq_sign_mul]) h
  exact ⟨_, by rw [ofInt?, if_pos hx.isFinite], hx⟩

theorem exists_ofIntRatio {n d : Int} (hd : d ≠ 0) (h : IsRepresentable ((n : ℚ) / d)) :
    ∃ x, ofIntRatio? n d = some x ∧ x.Denotes (n / d) := by
  unfold ofIntRatio?
  split
  case isTrue hn =>
    rw [hn, Int.cast_zero, zero_div]
    exact ⟨_, rfl, denotes_zero _⟩
  case isFalse hn =>
    have hq : (n : ℚ) / d = sign (decide (n < 0) != decide (d < 0)) * (n.natAbs / d.natAbs) := by
      rw [sign_xor, ← mul_div_mul_comm, ← intCast_eq_sign_mul, ← intCast_eq_sign_mul]
    have hx := denotes_ofRatio (Int.natAbs_pos.mpr hd) hq h
    exact ⟨_, if_pos hx.isFinite, hx⟩

end RouteLens.Binary64
