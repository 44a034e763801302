import RouteLens.Proofs.Payload.Quantity

/-!
# Constraints and the facts that hold them

A constraint asks something of the length of a text or of a number.  The facts about a field keep
one bound per side; nevertheless they admit exactly what all the constraints learned so far allow.
Every step that learns from keyword arguments is shown to narrow the facts by their constraints.
-/

namespace RouteLens

/-! ## Meeting a bound -/

namespace Side

variable {α : Type} [LinearOrder α] {side : Side} {a b x : α} {e f : Bool}

/-- A number lies farther out on a side than another one. -/
def Outside (a b : α) : Side → Prop
  | .lower => a < b
  | .upper => b < a

/-- A bound of a side that is met. -/
def Meets (b : α) (exclusive : Bool) (x : α) : Side → Prop
  | .lower => if exclusive then b < x else b ≤ x
  | .upper => if exclusive then x < b else x ≤ b

theorem meets_of_outside (side : Side) (h : side.Outside b x) : side.Meets b e x := by
  cases side <;> cases e
  · exact le_of_lt h
  · exact h
  · exact le_of_lt h
  · exact h

theorem Meets.of_outside (h : side.Meets b e x) (hout : side.Outside a b) : side.Meets a f x := by
  refine meets_of_outside side ?_
  cases side <;> cases e
  · exact lt_of_lt_of_le hout h
  · exact lt_trans hout h
  · exact lt_of_le_of_lt h hout
  · exact lt_trans h hout

theorem meets_or : side.Meets b (e || f) x ↔ side.Meets b e x ∧ side.Meets b f x := by
  cases side <;> cases e <;> cases f <;> simp [Meets] <;> exact le_of_lt

/-- A bound is met by what does not lie outside, and is not the bound itself if that is left out. -/
theorem meets_iff_not : side.Meets b e x ↔ ¬(side.Outside x b ∨ e = true ∧ x = b) := by
  cases side <;> cases e
  · simp [Meets, Outside]
  · simp [Meets, Outside, lt_iff_le_and_ne (a := b), ne_comm]
  · simp [Meets, Outside]
  · simp [Meets, Outside, lt_iff_le_and_ne (a := x)]

theorem Meets.not_outside (h : side.Meets b e x) : ¬ side.Outside x b :=
  fun hout => meets_iff_not.1 h (.inl hout)

theorem exceeds_iff {q m : Quantity} (hq : q.IsFinite) (hm : m.IsFinite) :
    side.exceeds q m = true ↔ side.Outside m.value q.value := by
  cases side with
  | lower => exact Quantity.lt_iff hm hq
  | upper => exact Quantity.lt_iff hq hm

theorem pastInt_eq {q : Quantity} (hq : q.IsFinite) (side : Side) :
    ∃ n, side.pastInt q = .ok n ∧
      ∀ z : Int, side.Meets n false z ↔ side.Meets q.value true (z : ℚ) := by
  cases side with
  | lower =>
    refine ⟨⌊q.value⌋ + 1, by rw [Side.pastInt, Quantity.floor_eq hq]; rfl, fun z => ?_⟩
    simp only [Side.Meets, Int.add_one_le_iff, Int.floor_lt, Bool.false_eq_true, if_false,
      if_true]
  | upper =>
    refine ⟨⌈q.value⌉ - 1, by rw [Side.pastInt, Quantity.ceil_eq hq]; rfl, fun z => ?_⟩
    simp only [Side.Meets, Int.le_sub_one_iff, Int.lt_ceil, Bool.false_eq_true, if_false,
      if_true]

theorem atInt_eq {q : Quantity} (hq : q.IsFinite) (side : Side) :
    ∃ n, side.atInt q = .ok n ∧
      ∀ z : Int, side.Meets n false z ↔ side.Meets q.value false (z : ℚ) := by
  cases side with
  | lower => exact ⟨_, Quantity.ceil_eq hq, fun z => by simp [Side.Meets, Int.ceil_le]⟩
  | upper => exact ⟨_, Quantity.floor_eq hq, fun z => by simp [Side.Meets, Int.le_floor]⟩

end Side

/-- A lower bound met by a number. -/
def Quantity.Below (q : Quantity) (exclusive : Bool) (x : ℚ) : Prop :=
  Side.lower.Meets q.value exclusive x

/-- An upper bound met by a number. -/
def Quantity.Above (q : Quantity) (exclusive : Bool) (x : ℚ) : Prop :=
  Side.upper.Meets q.value exclusive x

/-- What is asked of a scalar. -/
inductive Constraint where
  | minLength (n : Int)
  | maxLength (n : Int)
  | lower (q : Quantity) (exclusive : Bool)
  | upper (q : Quantity) (exclusive : Bool)

/-- The constraint of a bound of a side. -/
def Side.constraint (q : Quantity) (exclusive : Bool) : Side → Constraint
  | .lower => .lower q exclusive
  | .upper => .upper q exclusive

namespace Constraint

/-- A constraint whose bound is a number. -/
def IsFinite : Constraint → Prop
  | .lower q _ => q.IsFinite
  | .upper q _ => q.IsFinite
  | _ => True

instance (c : Constraint) : Decidable c.IsFinite :=
  match c with
  | .lower q _ => inferInstanceAs (Decidable q.IsFinite)
  | .upper q _ => inferInstanceAs (Decidable q.IsFinite)
  | .minLength _ => .isTrue trivial
  | .maxLength _ => .isTrue trivial

/-- Whether a text may have a length; constraints on numbers do not ask. -/
def AllowsLength : Constraint → Nat → Prop
  | .minLength m, n => m ≤ n
  | .maxLength m, n => n ≤ m
  | _, _ => True

/-- Whether a number may have a value; constraints on lengths do not ask. -/
def AllowsNumber : Constraint → ℚ → Prop
  | .lower q exclusive, x => q.Below exclusive x
  | .upper q exclusive, x => q.Above exclusive x
  | _, _ => True

/-- The keyword arguments that constrain a scalar. -/
def keywords : List String :=
  ["min_length", "min_items", "max_length", "max_items", "ge", "gt", "le", "lt"]

/-- The constraint of a keyword argument with a number for its value.  A length is an integer. -/
def ofKeyword? : String → Quantity → Option Constraint
  | "min_length", .int n | "min_items", .int n => some (.minLength n)
  | "max_length", .int n | "max_items", .int n => some (.maxLength n)
  | "ge", q => some (.lower q false)
  | "gt", q => some (.lower q true)
  | "le", q => some (.upper q false)
  | "lt", q => some (.upper q true)
  | _, _ => none

theorem ofKeyword?_of_not_mem {name : String} (h : name ∉ keywords) (q : Quantity) :
    ofKeyword? name q = none := by
  unfold ofKeyword?
  split
  all_goals first | rfl | exact absurd (by decide) h

end Constraint

/-- The constraint of a keyword argument, if its value is spelled out. -/
def Keyword.constraint? (k : Keyword) : Option Constraint := do
  Constraint.ofKeyword? (← k.name) (← Quantity.ofValue? (← k.value.literal?))

/-- A keyword argument that constrains nothing, or spells out a constraint with a finite bound. -/
def Keyword.IsLiteral (k : Keyword) : Prop :=
  ∀ name ∈ k.name, name ∈ Constraint.keywords → ∃ c ∈ k.constraint?, c.IsFinite

instance (k : Keyword) : Decidable k.IsLiteral :=
  inferInstanceAs (Decidable (∀ name ∈ k.name, _))

/-- The metadata entries that are read by position. -/
def positionalMarkers : List String :=
  ["MinLen", "Len", "MaxLen", "Ge", "Gt", "Le", "Lt"]

/-- The keyword arguments of a metadata entry. -/
def Expr.metadataKeywords : Expr → List Keyword
  | .node _ (.call _ _ keywords) => keywords
  | _ => []

/-- A metadata entry that says what it says by spelled out keyword arguments. -/
def Expr.IsKeywordForm : Expr → Prop
  | .node _ (.call func args keywords) =>
    (FieldFacts.isFieldCall func.terminalName? = true ∨ args = [] ∨
      ∀ name ∈ func.terminalName?, name ∉ positionalMarkers) ∧ ∀ k ∈ keywords, k.IsLiteral
  | _ => True

/-- The constraints that the name of a scalar type implies. -/
def ScalarType.constraints (s : ScalarType) : List Constraint :=
  (s.minimum.map fun n => .lower (.int n) false).toList ++
    (s.maximum.map fun n => .upper (.int n) false).toList

namespace FieldFacts

/-- Bounds that are numbers. -/
def HasFiniteBounds (t : FieldFacts) : Prop :=
  (∀ q ∈ t.minimum, q.IsFinite) ∧ ∀ q ∈ t.maximum, q.IsFinite

/-- Whether the facts admit a text of a length. -/
def AdmitsLength (t : FieldFacts) (n : Nat) : Prop :=
  (∀ m ∈ t.minLength, m ≤ n) ∧ ∀ m ∈ t.maxLength, n ≤ m

/-- Whether the facts admit a number. -/
def AdmitsNumber (t : FieldFacts) (x : ℚ) : Prop :=
  (∀ q ∈ t.minimum, q.Below t.minExclusive x) ∧ ∀ q ∈ t.maximum, q.Above t.maxExclusive x

/-! ## Narrowing -/

/-- Facts that admit what others admit and some constraints allow, about a scalar of one kind. -/
structure Narrows (t : FieldFacts) (cs : List Constraint) (t' : FieldFacts) : Prop where
  kind : t'.kind = t.kind
  format : t'.format = t.format
  finite : t.HasFiniteBounds → t'.HasFiniteBounds
  length : ∀ n, t'.AdmitsLength n ↔ t.AdmitsLength n ∧ ∀ c ∈ cs, c.AllowsLength n
  number : t.HasFiniteBounds →
    ∀ x, t'.AdmitsNumber x ↔ t.AdmitsNumber x ∧ ∀ c ∈ cs, c.AllowsNumber x

/-- A step that succeeds and narrows the facts. -/
def Learns (t : FieldFacts) (cs : List Constraint) (r : Except Fault FieldFacts) : Prop :=
  ∃ t', r = .ok t' ∧ Narrows t cs t'

variable {t t' u : FieldFacts} {cs ds : List Constraint}

theorem Narrows.refl (t : FieldFacts) : Narrows t [] t where
  kind := rfl
  format := rfl
  finite := id
  length n := by simp
  number _ x := by simp

theorem Narrows.trans (h : Narrows t cs u) (h' : Narrows u ds t') : Narrows t (cs ++ ds) t' where
  kind := h'.kind.trans h.kind
  format := h'.format.trans h.format
  finite ht := h'.finite (h.finite ht)
  length n := by rw [h'.length, h.length, List.forall_mem_append, and_assoc]
  number ht x := by
    rw [h'.number (h.finite ht), h.number ht, List.forall_mem_append, and_assoc]

/-- What a field may be left out of a payload does not matter to its scalar. -/
theorem Narrows.of_flags {o r s : Bool}
    (h : Narrows { t with optional := o, requiredMarker := r, skip := s } cs t') :
    Narrows t cs t' :=
  ⟨h.kind, h.format, h.finite, h.length, h.number⟩

theorem Learns.bind {r : Except Fault FieldFacts} {f : FieldFacts → Except Fault FieldFacts}
    (h : Learns t cs r) (hf : ∀ u, Learns u ds (f u)) : Learns t (cs ++ ds) (r >>= f) := by
  obtain ⟨u, rfl, hu⟩ := h
  obtain ⟨t', ht', hn⟩ := hf u
  exact ⟨t', ht', hu.trans hn⟩

/-! ## One bound at a time -/

/-- Whether the facts admit a number by its place in an order. -/
def AdmitsBy {α : Type} [LinearOrder α] (place : ℚ → α) (t : FieldFacts) (x : α) : Prop :=
  ∀ side, ∀ q ∈ t.bound? side, side.Meets (place q.value) (t.isExclusive side) x

theorem admitsNumber_iff {x : ℚ} : t.AdmitsNumber x ↔ t.AdmitsBy id x := by
  constructor
  · rintro ⟨hmin, hmax⟩ side
    cases side with
    | lower => exact hmin
    | upper => exact hmax
  · exact fun h => ⟨h .lower, h .upper⟩

theorem HasFiniteBounds.bound (h : t.HasFiniteBounds) (side : Side) :
    ∀ q ∈ t.bound? side, q.IsFinite := by
  cases side with
  | lower => exact h.1
  | upper => exact h.2

@[simp] theorem bound?_setBound (q : Quantity) (e : Bool) (side : Side) :
    (t.setBound q e side).bound? side = some q := by cases side <;> rfl

@[simp] theorem isExclusive_setBound (q : Quantity) (e : Bool) (side : Side) :
    (t.setBound q e side).isExclusive side = e := by cases side <;> rfl

/-- A bound of one side leaves the other side as it is. -/
theorem setBound_other {side other : Side} (h : other ≠ side) (q : Quantity) (e : Bool) :
    (t.setBound q e side).bound? other = t.bound? other ∧
      (t.setBound q e side).isExclusive other = t.isExclusive other := by
  cases side <;> cases other <;> first | exact absurd rfl h | exact ⟨rfl, rfl⟩

theorem HasFiniteBounds.setBound {q : Quantity} (h : t.HasFiniteBounds) (hq : q.IsFinite)
    (e : Bool) (side : Side) : (t.setBound q e side).HasFiniteBounds := by
  cases side with
  | lower => exact ⟨by simpa [FieldFacts.setBound] using hq, h.2⟩
  | upper => exact ⟨h.1, by simpa [FieldFacts.setBound] using hq⟩

section Bound

variable {v : Value} {q : Quantity} {side : Side} (e : Bool) (hv : Quantity.ofValue? v = some q)
  (hq : q.IsFinite) (ht : t.HasFiniteBounds)
include hv hq ht

/-- A bound replaces one that asks for less, adds to an equal one and is dropped for one that asks
for more. -/
theorem tighten_cases :
    (t.tighten side v e = t.setBound q e side ∧
      ∀ m ∈ t.bound? side, side.Outside m.value q.value) ∨
    ∃ m, t.bound? side = some m ∧
      ((t.tighten side v e = t.setBound m (t.isExclusive side || e) side ∧ q.value = m.value) ∨
        (t.tighten side v e = t ∧ side.Outside q.value m.value)) := by
  unfold tighten
  rw [hv]
  cases hm : t.bound? side with
  | none => exact .inl ⟨rfl, by simp⟩
  | some m =>
    have hmf := ht.bound side m hm
    have hout : side.exceeds q m = true ↔ _ := Side.exceeds_iff hq hmf
    have heq := Quantity.eq_iff hq hmf
    by_cases h : side.exceeds q m
    · exact .inl ⟨if_pos h, by simpa using hout.mp h⟩
    · refine .inr ⟨m, rfl, ?_⟩
      by_cases h' : q.eq m
      · exact .inl ⟨by simp only [h, h', if_true, if_false, Bool.false_eq_true], heq.mp h'⟩
      · refine .inr ⟨by simp only [h, h', if_false, Bool.false_eq_true], ?_⟩
        have hne : q.value ≠ m.value := mt heq.mpr h'
        have hnot : ¬ side.Outside m.value q.value := mt hout.mpr h
        cases side with
        | lower => exact lt_of_le_of_ne (not_lt.mp hnot) hne
        | upper => exact lt_of_le_of_ne (not_lt.mp hnot) hne.symm

theorem hasFiniteBounds_tighten : (t.tighten side v e).HasFiniteBounds := by
  rcases tighten_cases e hv hq ht with ⟨h, -⟩ | ⟨m, hm, ⟨h, -⟩ | ⟨h, -⟩⟩ <;> rw [h]
  · exact ht.setBound hq e side
  · exact ht.setBound (ht.bound side m hm) _ side
  · exact ht

/-- A bound leaves of the admitted numbers those that meet it. -/
theorem admitsBy_tighten {α : Type} [LinearOrder α] (place : ℚ → α)
    (hplace : ∀ a b, a < b → place a < place b) (x : α) :
    (t.tighten side v e).AdmitsBy place x ↔
      t.AdmitsBy place x ∧ side.Meets (place q.value) e x := by
  have hmono {a b : ℚ} (h : side.Outside a b) : side.Outside (place a) (place b) := by
    cases side with
    | lower => exact hplace a b h
    | upper => exact hplace b a h
  -- what a bound of this side changes, and what it leaves
  have hset (p : Quantity) (f : Bool) : (t.setBound p f side).AdmitsBy place x ↔
      side.Meets (place p.value) f x ∧ ∀ other, other ≠ side → ∀ m ∈ t.bound? other,
        other.Meets (place m.value) (t.isExclusive other) x := by
    constructor
    · refine fun h => ⟨by simpa using h side p (bound?_setBound p f side), ?_⟩
      intro other hne m hm
      have hother := setBound_other (t := t) hne p f
      exact hother.2 ▸ h other m (hother.1 ▸ hm)
    · rintro ⟨hside, hrest⟩ other m hm
      by_cases hne : other = side
      · subst hne
        rw [bound?_setBound] at hm
        cases hm
        rwa [isExclusive_setBound]
      · have hother := setBound_other (t := t) hne p f
        rw [hother.1] at hm
        exact hother.2 ▸ hrest other hne m hm
  rcases tighten_cases e hv hq ht with ⟨h, hout⟩ | ⟨m, hm, ⟨h, heq⟩ | ⟨h, hout⟩⟩ <;> rw [h]
  · rw [hset]
    constructor
    · rintro ⟨hx, hrest⟩
      refine ⟨fun other m hm => ?_, hx⟩
      by_cases hne : other = side
      · subst hne
        exact hx.of_outside (hmono (hout m hm))
      · exact hrest other hne m hm
    · exact fun ⟨ht, hx⟩ => ⟨hx, fun other _ => ht other⟩
  · rw [hset, Side.meets_or, heq]
    constructor
    · rintro ⟨⟨hx, hx'⟩, hrest⟩
      refine ⟨fun other p hp => ?_, hx'⟩
      by_cases hne : other = side
      · subst hne
        obtain rfl : m = p := Option.some.inj (hm.symm.trans hp)
        exact hx
      · exact hrest other hne p hp
    · exact fun ⟨ht, hx⟩ => ⟨⟨ht side m hm, hx⟩, fun other _ => ht other⟩
  · exact ⟨fun hx => ⟨hx, (hx side m hm).of_outside (hmono hout)⟩, And.left⟩

end Bound

theorem narrows_tighten {v : Value} {q : Quantity} (side : Side) (e : Bool)
    (hv : Quantity.ofValue? v = some q) (hq : q.IsFinite) :
    Narrows t [side.constraint q e] (t.tighten side v e) where
  kind := apply_tighten (by intro u q x side; cases side <;> rfl) t side v e
  format := apply_tighten (by intro u q x side; cases side <;> rfl) t side v e
  finite := hasFiniteBounds_tighten e hv hq
  length n := by
    have hsame := apply_tighten (f := fun t => AdmitsLength t n)
      (by intro u q x side; cases side <;> rfl) t side v e
    cases side <;> simpa [Side.constraint, Constraint.AllowsLength] using Iff.of_eq hsame
  number ht x := by
    rw [admitsNumber_iff, admitsNumber_iff,
      admitsBy_tighten e hv hq ht id (fun _ _ h => h), List.forall_mem_singleton]
    cases side <;> rfl

/-- The least length starts at zero, below which no text is. -/
theorem narrows_minLength (t : FieldFacts) (m : Int) :
    Narrows t [.minLength m] { t with minLength := some (max (t.minLength.getD 0) m) } where
  kind := rfl
  format := rfl
  finite := id
  length n := by
    cases h : t.minLength <;> simp [AdmitsLength, Constraint.AllowsLength, h] <;> tauto
  number _ x := by simp [AdmitsNumber, Constraint.AllowsNumber]

theorem narrows_maxLength (t : FieldFacts) (m : Int) :
    Narrows t [.maxLength m] { t with maxLength := some (t.maxLength.elim m (min · m)) } where
  kind := rfl
  format := rfl
  finite := id
  length n := by
    cases h : t.maxLength <;> simp [AdmitsLength, Constraint.AllowsLength, h]; tauto
  number _ x := by simp [AdmitsNumber, Constraint.AllowsNumber]

/-! ## Keyword arguments -/

/-- A keyword argument that spells out a constraint narrows the facts by it. -/
theorem learns_constrain {name : String} {value : Expr} {v : Value} {q : Quantity}
    {c : Constraint} (hl : value.literal? = some v) (hv : Quantity.ofValue? v = some q)
    (hc : Constraint.ofKeyword? name q = some c) (hf : c.IsFinite) :
    Learns t [c] (t.constrain name value) := by
  have hlength (n : Int) (hn : q = .int n) : lengthOf? (some v) = .ok (some n) := by
    rw [lengthOf?, Option.bind_some, hv, hn]
    rfl
  unfold Constraint.ofKeyword? at hc
  split at hc <;> cases hc
  case h_1 n => exact ⟨_, by simp [constrain, hl, hlength n rfl], narrows_minLength t n⟩
  case h_2 n => exact ⟨_, by simp [constrain, hl, hlength n rfl], narrows_minLength t n⟩
  case h_3 n => exact ⟨_, by simp [constrain, hl, hlength n rfl], narrows_maxLength t n⟩
  case h_4 n => exact ⟨_, by simp [constrain, hl, hlength n rfl], narrows_maxLength t n⟩
  case h_5 => exact ⟨_, by simp [constrain, hl, raiseMinimum], narrows_tighten .lower false hv hf⟩
  case h_6 => exact ⟨_, by simp [constrain, hl, raiseMinimum], narrows_tighten .lower true hv hf⟩
  case h_7 => exact ⟨_, by simp [constrain, hl, lowerMaximum], narrows_tighten .upper false hv hf⟩
  case h_8 => exact ⟨_, by simp [constrain, hl, lowerMaximum], narrows_tighten .upper true hv hf⟩

theorem constrain_of_not_mem {name : String} (h : name ∉ Constraint.keywords) (value : Expr) :
    t.constrain name value = .ok t := by
  unfold constrain
  cases value.literal? with
  | none => rfl
  | some v =>
    simp only
    split
    all_goals first | exact absurd (by decide) h | rfl

/-- A keyword argument with its constraint, if it has one. -/
theorem learns_keyword {k : Keyword} (hk : k.IsLiteral) :
    Learns t k.constraint?.toList (match k.name with
      | none => return t
      | some name => t.constrain name k.value) := by
  cases hn : k.name with
  | none =>
    have hnone : k.constraint? = none := by simp [Keyword.constraint?, hn]
    rw [hnone]
    exact ⟨t, rfl, .refl t⟩
  | some name =>
    by_cases hmem : name ∈ Constraint.keywords
    · obtain ⟨c, hc, hf⟩ := hk name hn hmem
      rw [Option.mem_def] at hc
      rw [hc, Option.toList_some]
      simp only [Keyword.constraint?, hn, Option.bind_eq_bind, Option.bind_some,
        Option.bind_eq_some_iff] at hc
      obtain ⟨v, hl, q, hv, hc⟩ := hc
      exact learns_constrain hl hv hc hf
    · have hnone : k.constraint? = none := by
        simp [Keyword.constraint?, hn, Constraint.ofKeyword?_of_not_mem hmem]
      rw [hnone]
      exact ⟨t, constrain_of_not_mem hmem k.value, .refl t⟩

/-- Keyword arguments in any number and order narrow the facts by all their constraints. -/
theorem learns_constrainAll {ks : List Keyword} (hks : ∀ k ∈ ks, k.IsLiteral) (t : FieldFacts) :
    Learns t (ks.filterMap Keyword.constraint?) (t.constrainAll ks) := by
  induction ks generalizing t with
  | nil => exact ⟨t, rfl, .refl t⟩
  | cons k ks ih =>
    have hfirst := learns_keyword (t := t) (hks k List.mem_cons_self)
    have hrest := ih fun k' hk' => hks k' (List.mem_cons_of_mem k hk')
    have hlist : (k :: ks).filterMap Keyword.constraint? =
        k.constraint?.toList ++ ks.filterMap Keyword.constraint? := by
      cases hk : k.constraint? <;> simp [hk]
    rw [hlist, constrainAll, List.foldlM_cons]
    exact hfirst.bind hrest

/-! ## Field declarations, metadata and type names -/

theorem narrows_declare (t : FieldFacts) (k : Keyword) : Narrows t [] (t.declare k) := by
  have hoptional : Narrows t [] { t with optional := true } := (Narrows.refl _).of_flags
  have hskip : Narrows t [] { t with skip := true } := (Narrows.refl _).of_flags
  unfold declare
  split
  · split
    · exact .refl t
    · exact hoptional
  · split
    · exact .refl t
    · exact hoptional
  · split
    · exact hskip
    · exact .refl t
  · exact .refl t

theorem narrows_foldl_declare (ks : List Keyword) (t : FieldFacts) :
    Narrows t [] (ks.foldl declare t) := by
  induction ks generalizing t with
  | nil => exact .refl t
  | cons k ks ih => exact (narrows_declare t k).trans (ih _)

theorem narrows_declareDefault (t : FieldFacts) (args : List Expr) :
    Narrows t [] (t.declareDefault args) := by
  unfold declareDefault
  split
  · split
    · exact .refl t
    · exact (Narrows.refl _).of_flags
  · exact .refl t

theorem learns_declareField {ks : List Keyword} (hks : ∀ k ∈ ks, k.IsLiteral) (args : List Expr)
    (t : FieldFacts) : Learns t (ks.filterMap Keyword.constraint?) (t.declareField args ks) := by
  have hflags := (narrows_declareDefault t args).trans (narrows_foldl_declare ks _)
  obtain ⟨t', ht', hn⟩ := learns_constrainAll hks (ks.foldl declare (t.declareDefault args))
  exact ⟨t', ht', hflags.trans hn⟩

/-- A marker whose arguments say nothing by their position. -/
theorem applyMarker_eq {name : String} {args : List Expr}
    (h : args = [] ∨ name ∉ positionalMarkers) (ks : List Keyword) :
    t.applyMarker name args ks = t.constrainAll ks := by
  unfold applyMarker
  split
  · exact h.elim (fun h => nomatch h) fun h => absurd (by decide) h
  · exact h.elim (fun h => nomatch h) fun h => absurd (by decide) h
  · exact h.elim (fun h => nomatch h) fun h => absurd (by decide) h
  · have hname := h.resolve_left (fun h => nomatch h)
    have hnone : boundKeyword? name = none := by
      unfold boundKeyword?
      split
      all_goals first | rfl | exact absurd (by decide) hname
    rw [hnone]
  · rfl

/-- Metadata adds the constraints of its keywords. -/
theorem learns_applyMetadata {m : Expr} (hm : m.IsKeywordForm) (t : FieldFacts) :
    Learns t (m.metadataKeywords.filterMap Keyword.constraint?) (t.applyMetadata m) := by
  unfold applyMetadata
  split
  case h_1 func args ks =>
    obtain ⟨hform, hks⟩ := hm
    simp only
    split
    case isTrue hfield => exact learns_declareField hks args t
    case isFalse hfield =>
      have hargs : args = [] ∨ func.terminalName?.getD "" ∉ positionalMarkers := by
        refine (hform.resolve_left hfield).imp_right fun h => ?_
        cases hn : func.terminalName? with
        | none => decide
        | some name => exact h name hn
      rw [applyMarker_eq hargs]
      exact learns_constrainAll hks t
  case h_2 h =>
    have hnone : m.metadataKeywords = [] := by
      unfold Expr.metadataKeywords
      split
      · exact absurd rfl (h _ _ _ _)
      · rfl
    rw [hnone]
    exact ⟨t, rfl, .refl t⟩

/-- The metadata entries of an annotation narrow the facts by all their constraints. -/
theorem learns_metadata {ms : List Expr} (hms : ∀ m ∈ ms, m.IsKeywordForm) (t : FieldFacts) :
    Learns t (ms.flatMap fun m => m.metadataKeywords.filterMap Keyword.constraint?)
      (ms.foldlM applyMetadata t) := by
  induction ms generalizing t with
  | nil => exact ⟨t, rfl, .refl t⟩
  | cons m ms ih =>
    rw [List.flatMap_cons, List.foldlM_cons]
    exact (learns_applyMetadata (hms m List.mem_cons_self) t).bind
      (ih fun m' hm' => hms m' (List.mem_cons_of_mem m hm'))

/-- The name of a scalar type sets the kind and narrows the facts by the bounds that it implies. -/
theorem narrows_applyTypeName {name : String} {s : ScalarType}
    (hf : TextFormat.ofTypeName? name = none) (hs : scalarTypes.lookup name = some s)
    (t : FieldFacts) :
    Narrows { t with kind := some s.kind } s.constraints (t.applyTypeName name) := by
  obtain ⟨kind, minimum, maximum⟩ := s
  unfold applyTypeName
  rw [hf, hs]
  have hmin (u : FieldFacts) (n : Int) :
      Narrows u [.lower (.int n) false] (u.raiseMinimum (.int n) false) :=
    narrows_tighten .lower false rfl trivial
  have hmax (u : FieldFacts) (n : Int) :
      Narrows u [.upper (.int n) false] (u.lowerMaximum (.int n) false) :=
    narrows_tighten .upper false rfl trivial
  cases minimum with
  | none =>
    cases maximum with
    | none => exact .refl _
    | some n => exact hmax _ n
  | some m =>
    cases maximum with
    | none => exact hmin _ m
    | some n => exact (hmin _ m).trans (hmax _ n)

end FieldFacts

end RouteLens
