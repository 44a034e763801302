import RouteLens.Proofs.Number.Line
import RouteLens.Proofs.Payload.Bounds

/-!
# Bounds as an intersection

The facts about a field keep one bound and one flag per side, whatever was learned before.  No
information is lost that way: after any calls that learn finite bounds, a number is admitted exactly
if it meets the inequality of every call (`FieldFacts.admits_learned_iff`).  So neither the order of
the calls nor their repetition matters.

Numbers are taken at their places on the line, the infinite ones at its ends.
-/

namespace RouteLens

namespace Quantity

/-- Where a quantity stands; not-a-number stands nowhere. -/
def place? : Quantity → Option Line
  | .int n => some (.of n)
  | .float x => x.place?

variable {a b : Quantity} {p q : Line}

theorem place?_of_isFinite (h : a.IsFinite) : a.place? = some (.of a.value) := by
  cases a with
  | int n => rfl
  | float x => exact Binary64.place?_of_isFinite h

/-- Two quantities compare as their places do. -/
theorem exists_compare? (ha : a.place? = some p) (hb : b.place? = some q) :
    ∃ o, a.compare? b = some o ∧ o.Compares p q := by
  cases a with
  | int m =>
    cases ha
    cases b with
    | int n =>
      cases hb
      refine ⟨_, rfl, ?_⟩
      rcases lt_trichotomy m n with h | rfl | h
      · rw [compare_lt_iff_lt.mpr h]
        exact Line.of_lt_of.mpr (Int.cast_lt.mpr h)
      · rw [compare_eq_iff_eq.mpr rfl]
        rfl
      · rw [compare_gt_iff_gt.mpr h]
        exact Line.of_lt_of.mpr (Int.cast_lt.mpr h)
    | float y => exact Binary64.exists_compareInt m hb
  | float x =>
    cases b with
    | int n =>
      cases hb
      obtain ⟨o, ho, hcompares⟩ := Binary64.exists_compareInt n ha
      exact ⟨o.swap, by rw [compare?, ho]; rfl, hcompares.swap⟩
    | float y => exact Binary64.exists_compare? ha hb

theorem lt_iff_place (ha : a.place? = some p) (hb : b.place? = some q) :
    a.lt b = true ↔ p < q := by
  obtain ⟨o, ho, hcompares⟩ := exists_compare? ha hb
  rw [lt, ho, beq_iff_eq, Option.some_inj, hcompares.eq_lt]

theorem eq_iff_place (ha : a.place? = some p) (hb : b.place? = some q) :
    a.eq b = true ↔ p = q := by
  obtain ⟨o, ho, hcompares⟩ := exists_compare? ha hb
  rw [eq, ho, beq_iff_eq, Option.some_inj, hcompares.eq_eq]

end Quantity

/-! ## Calls -/

/-- A call that learns a bound from a value. -/
inductive BoundCall where
  | raiseMinimum (v : Value) (exclusive : Bool)
  | lowerMaximum (v : Value) (exclusive : Bool)

namespace BoundCall

/-- What is known after a call. -/
def apply (t : FieldFacts) : BoundCall → FieldFacts
  | .raiseMinimum v exclusive => t.raiseMinimum v exclusive
  | .lowerMaximum v exclusive => t.lowerMaximum v exclusive

/-- The value that a call is made with. -/
def value : BoundCall → Value
  | .raiseMinimum v _ => v
  | .lowerMaximum v _ => v

/-- Where the bound of a value stands.  Truth values and what is no number have no bound. -/
def boundOf? : Value → Option Line
  | .int n => some (.of n)
  | .float x => x.place?
  | _ => none

/-- A call that is made with a number. -/
def IsNumeric (c : BoundCall) : Prop :=
  ∃ q : Quantity, c.value = q.toValue

/-- A call that is not made with an infinite number or with not-a-number. -/
def IsFinite (c : BoundCall) : Prop :=
  ∀ x, c.value = .float x → x.isFinite = true

/-- The inequality of a call.  A call without a bound makes none. -/
def Allows : BoundCall → Line → Prop
  | .raiseMinimum v exclusive, x => ∀ b ∈ boundOf? v, if exclusive then b < x else b ≤ x
  | .lowerMaximum v exclusive, x => ∀ b ∈ boundOf? v, if exclusive then x < b else x ≤ b

/-- A call learns a bound of one side from its value, and its inequality is to meet the bound. -/
theorem exists_tighten (c : BoundCall) : ∃ side v e, (∀ t, c.apply t = t.tighten side v e) ∧
    v = c.value ∧ ∀ x, c.Allows x ↔ ∀ b ∈ boundOf? v, side.Meets b e x := by
  cases c with
  | raiseMinimum v e => exact ⟨.lower, v, e, fun _ => rfl, rfl, fun _ => .rfl⟩
  | lowerMaximum v e => exact ⟨.upper, v, e, fun _ => rfl, rfl, fun _ => .rfl⟩

theorem isFinite_of_not_isNumeric {c : BoundCall} (h : ¬c.IsNumeric) : c.IsFinite :=
  fun x hx => absurd ⟨.float x, hx⟩ h

theorem allows_of_not_isNumeric {c : BoundCall} (h : ¬c.IsNumeric) (x : Line) : c.Allows x := by
  have hbound : boundOf? c.value = none := by
    unfold boundOf?
    split
    case h_1 n hn => exact absurd ⟨.int n, hn⟩ h
    case h_2 y hy => exact absurd ⟨.float y, hy⟩ h
    case h_3 => rfl
  cases c <;> simp only [value] at hbound <;> simp [Allows, hbound]

/-- A call is made with a finite quantity, or with nothing that bounds. -/
theorem IsFinite.cases {c : BoundCall} (h : c.IsFinite) :
    (Quantity.ofValue? c.value = none ∧ boundOf? c.value = none) ∨
      ∃ q, Quantity.ofValue? c.value = some q ∧ q.IsFinite ∧
        boundOf? c.value = some (.of q.value) := by
  cases hv : c.value with
  | int n => exact .inr ⟨.int n, rfl, trivial, rfl⟩
  | float x =>
    have hx := h x hv
    exact .inr ⟨.float x, rfl, hx, Binary64.place?_of_isFinite hx⟩
  | _ => exact .inl ⟨rfl, rfl⟩

end BoundCall

namespace FieldFacts

/-- What is known after some calls, of which nothing was known before. -/
def learned (calls : List BoundCall) : FieldFacts :=
  calls.foldl BoundCall.apply {}

variable {t : FieldFacts} {v : Quantity} {x : Line} {c : BoundCall} {calls others : List BoundCall}

/-- The test of a number against the bound of one side. -/
theorem meets_check {side : Side} {m : Quantity} (hm : m.IsFinite) (hv : v.place? = some x)
    (e : Bool) :
    (!(side.exceeds m v || (e && v.eq m))) = true ↔ side.Meets (Line.of m.value) e x := by
  have hplace := Quantity.place?_of_isFinite hm
  have hout : side.exceeds m v = true ↔ side.Outside x (Line.of m.value) := by
    cases side with
    | lower => exact Quantity.lt_iff_place hv hplace
    | upper => exact Quantity.lt_iff_place hplace hv
  rw [Side.meets_iff_not, Bool.not_eq_true', ← Bool.not_eq_true, Bool.or_eq_true,
    Bool.and_eq_true, hout, Quantity.eq_iff_place hv hplace]

theorem admits_iff_admitsBy (ht : t.HasFiniteBounds) (hv : v.place? = some x) :
    t.admits v = true ↔ t.AdmitsBy Line.of x := by
  have hside (side : Side) : t.admitsOn v side = true ↔
      ∀ m ∈ t.bound? side, side.Meets (Line.of m.value) (t.isExclusive side) x := by
    unfold admitsOn
    cases hm : t.bound? side with
    | none => simp
    | some m => simpa using meets_check (ht.bound side m hm) hv (t.isExclusive side)
  rw [admits, Bool.and_eq_true, hside, hside]
  refine ⟨?_, fun h => ⟨h .lower, h .upper⟩⟩
  rintro ⟨hmin, hmax⟩ side
  cases side with
  | lower => exact hmin
  | upper => exact hmax

/-- A call keeps the bounds finite and leaves, of the admitted places, those that it allows. -/
theorem admitsBy_apply (ht : t.HasFiniteBounds) (hc : c.IsFinite) :
    (c.apply t).HasFiniteBounds ∧
      ∀ x, (c.apply t).AdmitsBy Line.of x ↔ t.AdmitsBy Line.of x ∧ c.Allows x := by
  obtain ⟨side, v, e, happly, hvalue, hallows⟩ := c.exists_tighten
  rw [happly]
  rcases hc.cases with ⟨hnone, hbound⟩ | ⟨q, hq, hfinite, hbound⟩
  · -- a value that is no number teaches nothing
    rw [← hvalue] at hnone hbound
    have hsame : t.tighten side v e = t := by simp [tighten, hnone]
    rw [hsame]
    exact ⟨ht, fun x => by simp [hallows, hbound]⟩
  · rw [← hvalue] at hq hbound
    refine ⟨hasFiniteBounds_tighten e hq hfinite ht, fun x => ?_⟩
    rw [admitsBy_tighten e hq hfinite ht Line.of (fun _ _ => Line.of_lt_of.mpr) x, hallows, hbound]
    simp

/-- So do several calls, one after the other. -/
theorem admitsBy_foldl (ht : t.HasFiniteBounds) (hcalls : ∀ c ∈ calls, c.IsFinite) :
    (calls.foldl BoundCall.apply t).HasFiniteBounds ∧
      ∀ x, (calls.foldl BoundCall.apply t).AdmitsBy Line.of x ↔
        t.AdmitsBy Line.of x ∧ ∀ c ∈ calls, c.Allows x := by
  induction calls generalizing t with
  | nil => exact ⟨ht, by simp⟩
  | cons c calls ih =>
    obtain ⟨hc, hcalls⟩ := List.forall_mem_cons.mp hcalls
    obtain ⟨hfinite, happly⟩ := admitsBy_apply ht hc
    obtain ⟨hfinite', hrest⟩ := ih hfinite hcalls
    refine ⟨hfinite', fun x => ?_⟩
    rw [List.foldl_cons, hrest, happly, List.forall_mem_cons, and_assoc]

theorem hasFiniteBounds_empty : ({} : FieldFacts).HasFiniteBounds := by
  simp [HasFiniteBounds]

/-- Not-a-number is below and above no bound. -/
theorem admits_nan (t : FieldFacts) : t.admits (.float .nan) = true := by
  have hleft (m : Quantity) : (Quantity.float .nan).compare? m = none := by
    cases m <;> rfl
  have hright (m : Quantity) : m.compare? (.float .nan) = none := by
    cases m with
    | int n => rfl
    | float x => cases x <;> rfl
  have hside (side : Side) : t.admitsOn (.float .nan) side = true := by
    have hcheck (m : Quantity) : (!(side.exceeds m (.float .nan) ||
        (t.isExclusive side && (Quantity.float .nan).eq m))) = true := by
      cases side <;> simp [Side.exceeds, Quantity.lt, Quantity.eq, hleft, hright]
    unfold admitsOn
    cases t.bound? side with
    | none => rfl
    | some m => exact hcheck m
  rw [admits, hside, hside]
  rfl

theorem admits_learned (hcalls : ∀ c ∈ calls, c.IsFinite) (hv : v.place? = some x) :
    (learned calls).admits v = true ↔ ∀ c ∈ calls, c.Allows x := by
  obtain ⟨hfinite, hadmits⟩ := admitsBy_foldl hasFiniteBounds_empty hcalls
  have hempty : ({} : FieldFacts).AdmitsBy Line.of x := by
    intro side q hq
    cases side <;> cases hq
  rw [learned, admits_iff_admitsBy hfinite hv, hadmits, and_iff_right hempty]

/-- After any calls that learn finite bounds, a number is admitted exactly if it meets the
inequality of every call.  Calls that are made with the same numbers, in whatever order and however
often, admit the same. -/
theorem admits_learned_iff (calls : List BoundCall) (hcalls : ∀ c ∈ calls, c.IsFinite) :
    (∀ v x, v.place? = some x →
      ((learned calls).admits v = true ↔ ∀ c ∈ calls, c.Allows x)) ∧
    ∀ others, (∀ c : BoundCall, c.IsNumeric → (c ∈ others ↔ c ∈ calls)) →
      ∀ v, (learned others).admits v = (learned calls).admits v := by
  refine ⟨fun v x hv => admits_learned hcalls hv, fun others hsame v => ?_⟩
  have hothers : ∀ c ∈ others, c.IsFinite := by
    intro c hc
    by_cases hnumeric : c.IsNumeric
    · exact hcalls c ((hsame c hnumeric).mp hc)
    · exact BoundCall.isFinite_of_not_isNumeric hnumeric
  cases hv : v.place? with
  | none =>
    obtain rfl : v = .float .nan := by
      cases v with
      | int n => cases hv
      | float y => rw [Binary64.place?_eq_none.mp hv]
    rw [admits_nan, admits_nan]
  | some x =>
    rw [Bool.eq_iff_iff, admits_learned hothers hv, admits_learned hcalls hv]
    refine forall_congr' fun c => ?_
    by_cases hnumeric : c.IsNumeric
    · rw [hsame c hnumeric]
    · simp [BoundCall.allows_of_not_isNumeric hnumeric x]

/-- Bounds at the same number, one of them exclusive, and calls that are made with no number. -/
theorem admits_learned_iff_equalBounds :
    let calls : List BoundCall := [.raiseMinimum (.int 3) false, .lowerMaximum (.bool true) false,
      .raiseMinimum (.float (.ofRatio false 3 1)) true, .lowerMaximum (.int 10) false,
      .raiseMinimum (.text "7") false, .raiseMinimum (.int 2) true]
    (∀ c ∈ calls, c.IsFinite) ∧
      ((learned calls).admits (.int 3) = false ∧ ¬∀ c ∈ calls, c.Allows (.of 3)) ∧
      ((learned calls).admits (.int 10) = true ∧ ∀ c ∈ calls, c.Allows (.of 10)) ∧
      (learned calls.reverse).admits (.int 3) = false := by
  intro calls
  have hcalls : ∀ c ∈ calls, c.IsFinite := by
    simp only [calls, List.forall_mem_cons, BoundCall.IsFinite, BoundCall.value, reduceCtorEq,
      false_implies, implies_true, Value.float.injEq, forall_eq', true_and]
    exact ⟨by decide +kernel, by simp⟩
  obtain ⟨hadmits, hsame⟩ := admits_learned_iff calls hcalls
  have hthree : (learned calls).admits (.int 3) = false := by decide +kernel
  have hten : (learned calls).admits (.int 10) = true := by decide +kernel
  refine ⟨hcalls, ⟨hthree, ?_⟩, ⟨hten, ?_⟩, ?_⟩
  · rw [← hadmits (.int 3) _ (by simp [Quantity.place?]), hthree]
    exact Bool.false_ne_true
  · rwa [← hadmits (.int 10) _ (by simp [Quantity.place?])]
  · rw [hsame calls.reverse (fun c _ => List.mem_reverse), hthree]

end FieldFacts

end RouteLens
