import RouteLens.Proofs.Payload.ScalarField

/-!
# The number that a sample is

A sample number is one where the bounds allow it.  Elsewhere an integer is the admitted one that is
nearest to one, and a floating-point number is the end of the range that is nearest to one, if that
end is admitted.  An admitted number is found whenever there is one, and bounds that leave none are
settled in favour of the lower one (`FieldFacts.numberSample_best`).
-/

namespace RouteLens.FieldFacts

variable {t : FieldFacts}

/-- Whether a number is above the lower bound. -/
def MeetsMinimum (t : FieldFacts) (x : ℚ) : Prop :=
  ∀ q ∈ t.minimum, q.Below t.minExclusive x

/-- A bound that is given. -/
def IsEnd (t : FieldFacts) (q : Quantity) : Prop :=
  t.minimum = some q ∨ t.maximum = some q

/-- An end of the range that is as near to one as the ends are. -/
def IsNearestEnd (t : FieldFacts) (q : Quantity) : Prop :=
  t.IsEnd q ∧ ∀ p, t.IsEnd p → |q.value - 1| ≤ |p.value - 1|

/-! ## Integers -/

/-- Of the integers between two bounds, one moved between them is the nearest to one. -/
theorem clampOne_nearest {least greatest : Option Int} {y : Int} (hl : ∀ l ∈ least, l ≤ y)
    (hg : ∀ g ∈ greatest, y ≤ g) : |clampOne least greatest - 1| ≤ |y - 1| := by
  cases least with
  | none =>
    cases greatest with
    | none => simp [clampOne]
    | some g =>
      have hg := hg g rfl
      simp only [clampOne, abs_eq_max_neg]
      omega
  | some l =>
    have hl := hl l rfl
    cases greatest with
    | none =>
      simp only [clampOne, abs_eq_max_neg]
      omega
    | some g =>
      have hg := hg g rfl
      simp only [clampOne, abs_eq_max_neg]
      omega

/-- Bounds that leave no integer are both there, and the lower one is taken. -/
theorem clampOne_of_conflict {least greatest : Option Int}
    (h : ¬ ∃ y : Int, (∀ l ∈ least, l ≤ y) ∧ ∀ g ∈ greatest, y ≤ g) :
    least = some (clampOne least greatest) := by
  cases least with
  | none =>
    cases greatest with
    | none => exact absurd ⟨0, by simp, by simp⟩ h
    | some g => exact absurd ⟨g, by simp, by simp⟩ h
  | some l =>
    cases greatest with
    | none => exact absurd ⟨l, by simp, by simp⟩ h
    | some g =>
      have hlt : g < l := by
        by_contra hle
        exact h ⟨l, by simp, by simpa using hle⟩
      simp only [clampOne, Option.some.injEq]
      omega

/-- The integer sample is the admitted one that is nearest to one, or the least one above the lower
bound if none is admitted. -/
theorem intSample_best (ht : t.HasFiniteBounds) :
    ∃ z, t.intSample = .ok z ∧
      ((∃ y : Int, t.AdmitsNumber y) →
        t.AdmitsNumber z ∧ ∀ y : Int, t.AdmitsNumber y → |z - 1| ≤ |y - 1|) ∧
      ((¬ ∃ y : Int, t.AdmitsNumber y) → IsLeast {y : Int | t.MeetsMinimum y} z) := by
  obtain ⟨least, hl, hleast⟩ := outermostInt_eq ht .lower
  obtain ⟨greatest, hg, hgreatest⟩ := outermostInt_eq ht .upper
  have hadmits (y : Int) :
      t.AdmitsNumber y ↔ (∀ l ∈ least, l ≤ y) ∧ ∀ g ∈ greatest, y ≤ g :=
    and_congr (hleast y).symm (hgreatest y).symm
  refine ⟨clampOne least greatest, by rw [intSample, hl, hg]; rfl, ?_, ?_⟩
  · rintro ⟨y, hy⟩
    have hy := (hadmits y).mp hy
    refine ⟨(hadmits _).mpr (clampOne_between hy.1 hy.2), fun x hx => ?_⟩
    have hx := (hadmits x).mp hx
    exact clampOne_nearest hx.1 hx.2
  · intro hnone
    simp only [hadmits] at hnone
    have hleast' := clampOne_of_conflict hnone
    constructor
    · refine (hleast _).mp fun l hl => ?_
      rw [hleast', Option.mem_some_iff] at hl
      exact hl.ge
    · intro y hy
      exact (hleast y).mpr hy _ hleast'

/-! ## Floating-point numbers -/

theorem value_one : (Quantity.float .one).value = 1 := by
  have h : Binary64.one.Denotes ((1 : Nat) / (1 : Nat)) :=
    Binary64.denotes_finite Nat.one_pos _ (by decide +kernel)
  exact h.value_eq.trans (by simp)

/-- One, moved below the upper bound and then above the lower one, as a rational number. -/
theorem value_clampUnit_eq (ht : t.HasFiniteBounds) :
    t.clampUnit.value =
      t.minimum.elim (t.maximum.elim 1 (min 1 ·.value))
        fun lo => max (t.maximum.elim 1 (min 1 ·.value)) lo.value := by
  have hone : (Quantity.float .one).IsFinite := rfl
  unfold clampUnit
  cases hlo : t.minimum with
  | none =>
    cases hhi : t.maximum with
    | none => simp [value_one]
    | some hi => simp [Quantity.value_least hone (ht.2 hi hhi), value_one]
  | some lo =>
    have hl := ht.1 lo hlo
    cases hhi : t.maximum with
    | none => simp [Quantity.value_greatest hone hl, value_one]
    | some hi =>
      have hh := ht.2 hi hhi
      simp [Quantity.value_greatest (hone.least hh) hl, Quantity.value_least hone hh, value_one]

theorem floatPoint_of_admits (ht : t.HasFiniteBounds) (h : t.AdmitsNumber t.clampUnit.value) :
    t.floatPoint = .bound t.clampUnit := by
  rw [floatPoint, if_pos ((admits_iff ht (isFinite_clampUnit ht)).mpr h)]

/-- Between bounds that allow it, one stays where it is. -/
theorem clampUnit_of_admits_one (ht : t.HasFiniteBounds) (h : t.AdmitsNumber 1) :
    t.clampUnit = .float .one := by
  have hone : (Quantity.float .one).IsFinite := rfl
  have hbelow (hi : Quantity) (hhi : t.maximum = some hi) :
      (Quantity.float .one).least hi = .float .one := by
    have hle := not_lt.mp (h.2 hi hhi).not_outside
    have hlt := Quantity.lt_iff (ht.2 hi hhi) hone
    rw [value_one] at hlt
    exact if_neg (mt hlt.mp hle.not_gt)
  have habove (lo : Quantity) (hlo : t.minimum = some lo) :
      (Quantity.float .one).greatest lo = .float .one := by
    have hle := not_lt.mp (h.1 lo hlo).not_outside
    have hlt := Quantity.lt_iff hone (ht.1 lo hlo)
    rw [value_one] at hlt
    exact if_neg (mt hlt.mp hle.not_gt)
  unfold clampUnit
  cases hlo : t.minimum with
  | none =>
    cases hhi : t.maximum with
    | none => rfl
    | some hi => exact hbelow hi hhi
  | some lo =>
    cases hhi : t.maximum with
    | none => exact habove lo hlo
    | some hi =>
      simp only [hbelow hi hhi]
      exact habove lo hlo

/-- Where one is moved to, if it is not admitted and the end that is nearest to it is. -/
theorem value_clampUnit_of_nearest {q : Quantity} (ht : t.HasFiniteBounds)
    (hone : ¬ t.AdmitsNumber 1) (hq : t.IsNearestEnd q) (h : t.AdmitsNumber q.value) :
    t.clampUnit.value = q.value := by
  -- a bound refuses one; it lies between one and the nearest end, and is that end
  obtain ⟨side, m, hm, hnot⟩ : ∃ side m, t.bound? side = some m ∧
      ¬ side.Meets m.value (t.isExclusive side) 1 := by
    by_contra hall
    refine hone (admitsNumber_iff.2 fun side m hm => ?_)
    by_contra hnot
    exact hall ⟨side, m, hm, hnot⟩
  have hmeets := (admitsNumber_iff.1 h side m hm).not_outside
  have hout : ¬ side.Outside m.value 1 := mt (Side.meets_of_outside side) hnot
  rw [value_clampUnit_eq ht]
  cases side with
  | lower =>
    have hlo : t.minimum = some m := hm
    have hle : 1 ≤ m.value := not_lt.mp hout
    have hmq : m.value ≤ q.value := not_lt.mp hmeets
    have hdist := hq.2 m (.inl hlo)
    rw [abs_of_nonneg (by linarith), abs_of_nonneg (by linarith)] at hdist
    have hbelow : t.maximum.elim 1 (min 1 ·.value) ≤ m.value := by
      cases t.maximum with
      | none => exact hle
      | some hi => exact (min_le_left _ _).trans hle
    rw [hlo, Option.elim_some, max_eq_right hbelow]
    linarith
  | upper =>
    have hhi : t.maximum = some m := hm
    have hle : m.value ≤ 1 := not_lt.mp hout
    have hqm : q.value ≤ m.value := not_lt.mp hmeets
    have hdist := hq.2 m (.inr hhi)
    rw [abs_of_nonpos (by linarith), abs_of_nonpos (by linarith)] at hdist
    rw [hhi, Option.elim_some, min_eq_right hle]
    cases hlo : t.minimum with
    | none =>
      rw [Option.elim_none]
      linarith
    | some lo =>
      have hloq : lo.value ≤ q.value := not_lt.mp (h.1 lo hlo).not_outside
      rw [Option.elim_some, max_eq_left (hloq.trans hqm)]
      linarith

/-- Bounds that leave no number are both there, and the point is above the lower one. -/
theorem meetsMinimum_floatPoint (ht : t.HasFiniteBounds) (h : ¬ ∃ x, t.AdmitsNumber x) :
    t.MeetsMinimum t.floatPoint.value := by
  intro lo hlo
  rw [Option.mem_def] at hlo
  have hclamp : t.admits t.clampUnit = false := by
    rw [← Bool.not_eq_true, admits_iff ht (isFinite_clampUnit ht)]
    exact fun hadmits => h ⟨_, hadmits⟩
  have hbeside : lo.Below t.minExclusive
      (if t.minExclusive then Point.beside lo 1 else .bound lo).value := by
    cases t.minExclusive with
    | true => simp [Quantity.Below, Side.Meets, Point.value]
    | false => simp [Quantity.Below, Side.Meets, Point.value]
  rw [floatPoint, hclamp, if_neg Bool.false_ne_true, hlo]
  cases hhi : t.maximum with
  | none => exact hbeside
  | some hi =>
    by_cases hlt : lo.lt hi = true
    · -- between two bounds that are apart there is a number
      have hval := (Quantity.lt_iff (ht.1 lo hlo) (ht.2 hi hhi)).mp hlt
      refine absurd ⟨(lo.value + hi.value) / 2, fun q hq => ?_, fun q hq => ?_⟩ h
      · obtain rfl : lo = q := Option.some.inj (hlo.symm.trans hq)
        exact Side.meets_of_outside .lower (by simp only [Side.Outside]; linarith)
      · obtain rfl : hi = q := Option.some.inj (hhi.symm.trans hq)
        exact Side.meets_of_outside .upper (by simp only [Side.Outside]; linarith)
    · simp only [if_neg hlt]
      exact hbeside

/-- The sample of a number with finite bounds.  An integer sample is the admitted integer that is
nearest to one, and the least one above the lower bound if the bounds leave none.  A floating-point
sample is one if that is admitted; else it is taken at the end of the range that is nearest to one,
if that end is admitted; it is taken at an admitted point if there is one, and above the lower bound
if there is none.  The point is a rational number, and the sample is that number unless computing it
needs rounding. -/
theorem numberSample_best (t : FieldFacts) (ht : t.HasFiniteBounds) :
    (t.kind = some .int → ∃ z : Int, t.numberSample = .ok (.int z) ∧
      ((∃ y : Int, t.AdmitsNumber y) →
        t.AdmitsNumber z ∧ ∀ y : Int, t.AdmitsNumber y → |z - 1| ≤ |y - 1|) ∧
      ((¬ ∃ y : Int, t.AdmitsNumber y) → IsLeast {y : Int | t.MeetsMinimum y} z)) ∧
    (t.kind = some .float → t.numberSample = t.floatPoint.toFloat.map .float ∧
      (t.floatPoint.IsExact →
        ∃ x, t.numberSample = .ok (.float x) ∧ x.Denotes t.floatPoint.value) ∧
      (t.AdmitsNumber 1 → t.floatPoint.value = 1 ∧ t.numberSample = .ok (.float .one)) ∧
      (¬ t.AdmitsNumber 1 → ∀ q, t.IsNearestEnd q → t.AdmitsNumber q.value →
        t.floatPoint.value = q.value) ∧
      ((∃ x, t.AdmitsNumber x) → t.AdmitsNumber t.floatPoint.value) ∧
      ((¬ ∃ x, t.AdmitsNumber x) → t.MeetsMinimum t.floatPoint.value)) := by
  constructor
  · intro hkind
    obtain ⟨z, hz, hbest⟩ := intSample_best ht
    refine ⟨z, ?_, hbest⟩
    rw [numberSample, if_pos hkind, hz]
    rfl
  · intro hkind
    have hsample : t.numberSample = t.floatPoint.toFloat.map .float := by
      rw [numberSample, if_neg (by simp [hkind]), floatSample]
      cases t.floatPoint.toFloat <;> rfl
    refine ⟨hsample, fun hexact => ?_, fun hone => ?_, fun hone q hq hadmits => ?_,
      admitsNumber_floatPoint ht, meetsMinimum_floatPoint ht⟩
    · obtain ⟨x, hx, hdenotes⟩ := Point.toFloat_eq (isFinite_floatPoint ht) hexact
      exact ⟨x, by rw [hsample, hx, map_ok], hdenotes⟩
    · have hclamp := clampUnit_of_admits_one ht hone
      have hpoint : t.floatPoint = .bound (.float .one) := by
        rw [floatPoint_of_admits ht (by rwa [hclamp, value_one]), hclamp]
      exact ⟨by rw [hpoint, Point.value, value_one], by rw [hsample, hpoint]; rfl⟩
    · have hvalue := value_clampUnit_of_nearest ht hone hq hadmits
      rw [floatPoint_of_admits ht (by rwa [hvalue]), Point.value, hvalue]

/-- A number above two and a half, which may be excluded, and up to nine. -/
def aboveHalf (kind : ScalarKind) (exclusive : Bool) : FieldFacts where
  kind := some kind
  minimum := some (.float twoAndHalf)
  minExclusive := exclusive
  maximum := some (.int 9)

/-- Between two and a half and nine the integer is three, which no other one is nearer to one than,
and the number is two and a half. -/
theorem numberSample_best_aboveHalf :
    (∀ kind exclusive, (aboveHalf kind exclusive).HasFiniteBounds) ∧
      (aboveHalf .int true).numberSample = .ok (.int 3) ∧
      (∀ y : Int, (aboveHalf .int true).AdmitsNumber y → |(3 : Int) - 1| ≤ |y - 1|) ∧
      (aboveHalf .float false).floatPoint.value = 5 / 2 := by
  have hfinite (kind : ScalarKind) (exclusive : Bool) :
      (aboveHalf kind exclusive).HasFiniteBounds :=
    ⟨by simp [aboveHalf, Quantity.IsFinite]; rfl, by simp [aboveHalf, Quantity.IsFinite]⟩
  have hsample : (aboveHalf .int true).intSample = .ok 3 := by decide +kernel
  have hthree : (aboveHalf .int true).AdmitsNumber ((3 : Int) : ℚ) := by
    norm_num [AdmitsNumber, aboveHalf, Quantity.Below, Quantity.Above, Side.Meets,
      Quantity.value,
      value_twoAndHalf]
  have hone : ¬ (aboveHalf .float false).AdmitsNumber 1 := by
    norm_num [AdmitsNumber, aboveHalf, Quantity.Below, Side.Meets, Quantity.value,
      value_twoAndHalf]
  have hend : (aboveHalf .float false).AdmitsNumber (Quantity.float twoAndHalf).value := by
    norm_num [AdmitsNumber, aboveHalf, Quantity.Below, Quantity.Above, Side.Meets,
      Quantity.value,
      value_twoAndHalf]
  have hnearest : (aboveHalf .float false).IsNearestEnd (.float twoAndHalf) := by
    refine ⟨.inl rfl, ?_⟩
    rintro p (hp | hp) <;> cases hp
    · exact le_rfl
    · norm_num [Quantity.value, value_twoAndHalf]
  have hkind : (aboveHalf .int true).kind = some .int := rfl
  have hvalue : (aboveHalf .int true).numberSample = .ok (.int 3) := by
    rw [numberSample, if_pos hkind, hsample]
    rfl
  obtain ⟨z, hz, hbest, -⟩ := (numberSample_best _ (hfinite .int true)).1 hkind
  obtain rfl : z = 3 := by
    rw [hvalue] at hz
    cases hz
    rfl
  have hpoint := ((numberSample_best _ (hfinite .float false)).2 rfl).2.2.2.1 hone _ hnearest hend
  exact ⟨hfinite, hvalue, (hbest ⟨3, hthree⟩).2, hpoint.trans value_twoAndHalf⟩

end RouteLens.FieldFacts
