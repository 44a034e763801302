/-!
# Positions in a source text

Lines count from one, columns from zero in bytes of the UTF-8 encoding of the line.
-/

namespace RouteLens

/-- A place in a source text. -/
structure Position where
  line : Nat
  column : Nat
  deriving DecidableEq, Inhabited

namespace Position

/-- Whether one place stands before another, or is the same. -/
def le (p q : Position) : Bool :=
  decide (p.line < q.line) || (p.line == q.line && decide (p.column ≤ q.column))

/-- The earlier of two places. -/
def earlier (p q : Position) : Position :=
  if p.le q then p else q

/-- One place stands before another. -/
def Before (p q : Position) : Prop :=
  p.line < q.line ∨ p.line = q.line ∧ p.column < q.column

instance (p q : Position) : Decidable (p.Before q) :=
  inferInstanceAs (Decidable (_ ∨ _))

theorem le_iff {p q : Position} :
    p.le q = true ↔ p.line < q.line ∨ p.line = q.line ∧ p.column ≤ q.column := by
  simp [le]

theorem le_refl (p : Position) : p.le p = true := by
  simp [le]

theorem le_trans {p q r : Position} (hpq : p.le q = true) (hqr : q.le r = true) :
    p.le r = true := by
  rw [le_iff] at *
  omega

theorem le_total (p q : Position) : (p.le q || q.le p) = true := by
  rw [Bool.or_eq_true, le_iff, le_iff]
  omega

theorem Before.le {p q : Position} (h : p.Before q) : p.le q = true := by
  rw [le_iff]
  unfold Before at h
  omega

theorem Before.not_le {p q : Position} (h : p.Before q) : ¬ q.le p = true := by
  rw [le_iff]
  unfold Before at h
  omega

end Position

/-- The stretch of source text that a construct covers; `stop` is the place after its end. -/
structure Span where
  start : Position
  stop : Position
  deriving DecidableEq, Inhabited

end RouteLens
