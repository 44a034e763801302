import RouteLens.Proofs.Number.Exact

/-!
# The range of floating-point numbers

Numbers below half a step above the greatest floating-point number are rounded to finite ones.
-/

namespace RouteLens.Binary64

/-- The least natural number that is rounded to infinity.  It lies half a step above the greatest
finite number. -/
@[irreducible] def overflow : Nat :=
  (1 <<< 54 - 1) <<< 970

/-! ## Bounds of a rounded quotient -/

section Round

variable {n d k : Nat}

theorem div_le_roundDiv (n d : Nat) : n / d ≤ roundDiv n d := by
  simp only [roundDiv]
  split <;> omega

theorem roundDiv_le_of_lt_mul (h : n < k * d) : roundDiv n d ≤ k := by
  have hdiv : n / d < k := Nat.div_lt_of_lt_mul (Nat.mul_comm k d ▸ h)
  simp only [roundDiv]
  split <;> omega

/-- A quotient that is more than half below a whole number is rounded to less. -/
theorem roundDiv_lt_of_two_mul (h : 2 * n + d < 2 * (k * d)) : roundDiv n d < k := by
  have hn := Nat.div_add_mod' n d
  simp only [roundDiv]
  split
  case isTrue hup =>
    have hle : (n / d + 1) * d ≤ n / d * d + 2 * (n % d) := by
      rw [Nat.add_mul, Nat.one_mul]
      omega
    have hlt : 2 * ((n / d + 1) * d) < 2 * (k * d) := by
      rw [Nat.add_mul, Nat.one_mul]
      omega
    exact Nat.lt_of_mul_lt_mul_right (Nat.lt_of_mul_lt_mul_left hlt)
  case isFalse =>
    exact Nat.div_lt_of_lt_mul (by rw [Nat.mul_comm d k]; omega)

end Round

/-! ## Ratios in range -/

section Scale

variable {n d e top : Nat}

theorem lt_of_scale (hd : 0 < d) (he : (n / d).log2 - 52 = e) : n < 2 ^ 53 * (d <<< e) := by
  have hlt : n / d < 2 ^ (53 + e) :=
    Nat.lt_log2_self.trans_le (Nat.pow_le_pow_right Nat.two_pos (by omega))
  rw [Nat.shiftLeft_eq, Nat.mul_comm d, ← Nat.mul_assoc, ← Nat.pow_add]
  exact Nat.lt_mul_of_div_lt hlt hd

theorem le_of_scale (hd : 0 < d) (he : (n / d).log2 - 52 = e) (hpos : 0 < e) :
    2 ^ (52 + e) * d ≤ n := by
  have hne : n / d ≠ 0 := by
    intro hzero
    rw [hzero, Nat.log2_zero] at he
    omega
  exact (Nat.le_div_iff_mul_le hd).1 ((Nat.le_log2 hne).1 (by omega))

theorem le_roundDiv_of_scale (hd : 0 < d) (he : (n / d).log2 - 52 = e) (hpos : 0 < e) :
    2 ^ 52 ≤ roundDiv n (d <<< e) := by
  refine le_trans ?_ (div_le_roundDiv ..)
  rw [Nat.shiftLeft_eq, Nat.mul_comm d, Nat.le_div_iff_mul_le (by positivity), ← Nat.mul_assoc,
    ← Nat.pow_add]
  exact le_of_scale hd he hpos

theorem scale_le (hd : 0 < d) (he : (n / d).log2 - 52 = e)
    (h : n < (2 ^ 54 - 1) * (2 ^ top * d)) : e ≤ top + 1 := by
  by_contra hlarge
  have hle : 2 ^ 54 * (2 ^ top * d) ≤ n := by
    rw [← Nat.mul_assoc, ← Nat.pow_add]
    refine le_trans ?_ (le_of_scale hd he (by omega))
    exact Nat.mul_le_mul_right _ (Nat.pow_le_pow_right Nat.two_pos (by omega))
  omega

/-- At the greatest scale nothing is carried. -/
theorem roundDiv_lt_of_scale (h : n < (2 ^ 54 - 1) * (2 ^ top * d)) :
    roundDiv n (d <<< (top + 1)) < 2 ^ 53 := by
  refine roundDiv_lt_of_two_mul ?_
  rw [Nat.shiftLeft_eq, Nat.mul_comm d, Nat.pow_succ', Nat.mul_assoc]
  omega

end Scale

theorem isFinite_ofParts {s : Bool} {m e : Nat} (h : IsCanonical m e) :
    (ofParts s m e).isFinite = true := by
  rw [ofParts, dif_pos h]
  rfl

/-- A ratio below the range is rounded to a finite number. -/
theorem isFinite_ofRatio (s : Bool) {n d : Nat} (hd : 0 < d) (h : n < overflow * d) :
    (ofRatio s n d).isFinite = true := by
  have hunits : overflow * unitsInOne = (2 ^ 54 - 1) * 1 <<< 2044 := by decide +kernel
  have hscaled : n * unitsInOne < (2 ^ 54 - 1) * (2 ^ 2044 * d) := by
    rw [← Nat.one_mul (2 ^ 2044), ← Nat.shiftLeft_eq, ← Nat.mul_assoc, ← hunits,
      Nat.mul_right_comm]
    exact Nat.mul_lt_mul_of_pos_right h unitsInOne_pos
  unfold ofRatio
  simp only
  generalize he : (n * unitsInOne / d).log2 - 52 = e
  have hscale := scale_le hd he hscaled
  have hround := roundDiv_le_of_lt_mul (lt_of_scale hd he)
  split
  case isTrue hcarry =>
    have hne : e ≠ 2045 := by
      rintro rfl
      exact absurd hcarry (roundDiv_lt_of_scale hscaled).ne
    exact isFinite_ofParts ⟨by decide, by omega, .inr (by decide)⟩
  case isFalse hne =>
    refine isFinite_ofParts ⟨Nat.lt_of_le_of_ne hround hne, hscale, ?_⟩
    rcases Nat.eq_zero_or_pos e with hzero | hpos
    · exact .inl hzero
    · exact .inr (le_roundDiv_of_scale hd he hpos)

/-! ## Integers in range -/

theorem exists_ofInt_of_lt {n : Int} (h : n.natAbs < overflow) : ∃ x, ofInt? n = some x :=
  ⟨_, if_pos (isFinite_ofRatio _ Nat.one_pos (by rwa [Nat.mul_one]))⟩

theorem exists_half_of_lt {n : Int} (h : n.natAbs < overflow * 2) :
    ∃ x, ofIntRatio? n 2 = some x := by
  unfold ofIntRatio?
  split
  · exact ⟨_, rfl⟩
  · exact ⟨_, if_pos (isFinite_ofRatio _ Nat.two_pos h)⟩

end RouteLens.Binary64
