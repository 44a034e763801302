import RouteLens.Proofs.Number.Line
import RouteLens.Tree.Literal

/-!
# What the operations on values are

The four operations, as rules: two numbers are taken to the wider of their kinds and reckoned there,
texts, bytes and lists are joined, and repeated by an integer (`Computes`).  An operation has a
result where a rule applies, and no other (`BinaryOp.apply_eq_ok_iff`).

A dictionary is filled in order.  Of equal keys the first one stays, with the value given last
(`Collects`); numbers are equal as keys if they stand at the same place.
-/

namespace RouteLens

namespace Value

/-! ## Numbers -/

/-- A value is an integer; truth values are zero and one. -/
inductive IsInt : Value → Int → Prop
  | int (n : Int) : IsInt (.int n) n
  | bool (b : Bool) : IsInt (.bool b) (if b then 1 else 0)

/-- A value is taken for a floating-point number; an integer is rounded, if it is not too large. -/
inductive AsFloat : Value → Binary64 → Prop
  | float (x : Binary64) : AsFloat (.float x) x
  | int {a : Value} {n : Int} {x : Binary64} (h : IsInt a n) (hx : Binary64.ofInt? n = some x) :
      AsFloat a x

/-- A value is taken for a complex number, given by its two parts. -/
inductive AsComplex : Value → Binary64 × Binary64 → Prop
  | complex (re im : Binary64) : AsComplex (.complex re im) (re, im)
  | real {a : Value} {x : Binary64} (h : AsFloat a x) : AsComplex a (x, .zero false)

variable {a b v : Value} {n : Int}

theorem isInt_iff : IsInt a n ↔ Numeric.ofValue? a = some (.int n) := by
  constructor
  · rintro (_ | _) <;> rfl
  · intro h
    cases a <;> cases h
    · exact .bool _
    · exact .int _

theorem asFloat_iff {x : Binary64} :
    AsFloat a x ↔ ∃ p, Numeric.ofValue? a = some p ∧ p.toFloat = .ok x := by
  constructor
  · rintro (_ | ⟨h, hx⟩)
    · exact ⟨_, rfl, rfl⟩
    · exact ⟨_, isInt_iff.1 h, orFault_eq_ok_iff.2 hx⟩
  · rintro ⟨p, hp, hx⟩
    cases p with
    | int n => exact .int (isInt_iff.2 hp) (orFault_eq_ok_iff.1 hx)
    | float y =>
      cases hx
      cases a <;> cases hp
      exact .float _
    | complex re im => cases hx

/-- The complex number that a value counts as is that of its numeric reading. -/
theorem asComplex_iff {z : Binary64 × Binary64} :
    AsComplex a z ↔ ∃ p, Numeric.ofValue? a = some p ∧ p.toComplex = .ok z := by
  constructor
  · rintro (_ | h)
    · exact ⟨_, rfl, rfl⟩
    · obtain ⟨p, hp, hx⟩ := asFloat_iff.1 h
      refine ⟨p, hp, ?_⟩
      cases p with
      | int n => exact map_eq_ok_iff.2 ⟨_, hx, rfl⟩
      | float y =>
        cases hx
        rfl
      | complex re im => cases hx
  · rintro ⟨p, hp, hz⟩
    cases p with
    | int n =>
      obtain ⟨x, hx, rfl⟩ := map_eq_ok_iff.1 hz
      exact .real (asFloat_iff.2 ⟨_, hp, hx⟩)
    | float y =>
      cases hz
      exact .real (asFloat_iff.2 ⟨_, hp, rfl⟩)
    | complex re im =>
      cases hz
      cases a <;> cases hp
      exact .complex re im

/-- Numbers are reckoned with in the wider of their kinds, given the operation of each kind. -/
inductive Reckons (onInt : Int → Int → Except Fault Numeric)
    (onFloat : Binary64 → Binary64 → Except Fault Binary64)
    (onComplex : Binary64 × Binary64 → Binary64 × Binary64 → Except Fault (Binary64 × Binary64)) :
    Value → Value → Value → Prop
  | ints {a b : Value} {m n : Int} {r : Numeric} (ha : IsInt a m) (hb : IsInt b n)
      (h : onInt m n = .ok r) : Reckons onInt onFloat onComplex a b r.toValue
  | floats {a b : Value} {x y z : Binary64} (ha : AsFloat a x) (hb : AsFloat b y)
      (hkind : a = .float x ∨ b = .float y) (h : onFloat x y = .ok z) :
      Reckons onInt onFloat onComplex a b (.float z)
  | complexes {a b : Value} {x y z : Binary64 × Binary64} (ha : AsComplex a x) (hb : AsComplex b y)
      (hkind : a = .complex x.1 x.2 ∨ b = .complex y.1 y.2) (h : onComplex x y = .ok z) :
      Reckons onInt onFloat onComplex a b (.complex z.1 z.2)

section Combine

variable {onInt : Int → Int → Except Fault Numeric}
  {onFloat : Binary64 → Binary64 → Except Fault Binary64}
  {onComplex : Binary64 × Binary64 → Binary64 × Binary64 → Except Fault (Binary64 × Binary64)}
  {p q : Numeric}

theorem combine_floats {x y : Binary64} (hx : p.toFloat = .ok x) (hy : q.toFloat = .ok y)
    (hkind : p = .float x ∨ q = .float y) :
    Numeric.combine onInt onFloat onComplex p q = (onFloat x y).map .float := by
  have hbind : (do return .float (← onFloat (← p.toFloat) (← q.toFloat)) : Except Fault Numeric) =
      (onFloat x y).map Numeric.float := by
    rw [hx, hy]
    rfl
  rw [← hbind]
  rcases hkind with rfl | rfl
  · cases q with
    | complex re im => cases hy
    | _ => rfl
  · cases p with
    | complex re im => cases hx
    | _ => rfl

theorem combine_complexes {x y : Binary64 × Binary64} (hx : p.toComplex = .ok x)
    (hy : q.toComplex = .ok y) (hkind : p = .complex x.1 x.2 ∨ q = .complex y.1 y.2) :
    Numeric.combine onInt onFloat onComplex p q =
      (onComplex x y).map fun z => .complex z.1 z.2 := by
  have hbind : (do
      let z ← onComplex (← p.toComplex) (← q.toComplex)
      return .complex z.1 z.2 : Except Fault Numeric) =
        (onComplex x y).map fun z => Numeric.complex z.1 z.2 := by
    rw [hx, hy]
    rfl
  rw [← hbind]
  rcases hkind with rfl | rfl
  · cases q <;> rfl
  · cases p <;> rfl

theorem onNumbers_eq_ok_iff {f : Numeric → Numeric → Except Fault Numeric} :
    onNumbers f a b = .ok v ↔ ∃ p q r, Numeric.ofValue? a = some p ∧ Numeric.ofValue? b = some q ∧
      f p q = .ok r ∧ r.toValue = v := by
  unfold onNumbers
  cases Numeric.ofValue? a <;> cases Numeric.ofValue? b <;> simp [map_eq_ok_iff]

theorem ofValue?_float {x : Binary64} : Numeric.ofValue? a = some (.float x) ↔ a = .float x := by
  cases a <;> simp [Numeric.ofValue?]

theorem ofValue?_complex {re im : Binary64} :
    Numeric.ofValue? a = some (.complex re im) ↔ a = .complex re im := by
  cases a <;> simp [Numeric.ofValue?]

/-- What is combined is reckoned in the widest kind of the two operands. -/
theorem reckons_of_combine {r : Numeric} (hp : Numeric.ofValue? a = some p)
    (hq : Numeric.ofValue? b = some q)
    (h : Numeric.combine onInt onFloat onComplex p q = .ok r) :
    Reckons onInt onFloat onComplex a b r.toValue := by
  unfold Numeric.combine at h
  split at h
  case h_1 => exact .ints (isInt_iff.2 hp) (isInt_iff.2 hq) h
  all_goals
    simp only [bind_eq_ok_iff] at h
    obtain ⟨x, hx, y, hy, z, hz, hr⟩ := h
    cases hr
  case h_2 =>
    refine .complexes (asComplex_iff.2 ⟨_, hp, hx⟩) (asComplex_iff.2 ⟨_, hq, hy⟩) (.inl ?_) hz
    cases hx
    exact ofValue?_complex.1 hp
  case h_3 =>
    refine .complexes (asComplex_iff.2 ⟨_, hp, hx⟩) (asComplex_iff.2 ⟨_, hq, hy⟩) (.inr ?_) hz
    cases hy
    exact ofValue?_complex.1 hq
  case h_4 hints =>
    refine .floats (asFloat_iff.2 ⟨_, hp, hx⟩) (asFloat_iff.2 ⟨_, hq, hy⟩) ?_ hz
    cases p with
    | float x =>
      cases hx
      exact .inl (ofValue?_float.1 hp)
    | int m =>
      cases q with
      | float y =>
        cases hy
        exact .inr (ofValue?_float.1 hq)
      | int n => exact (hints m n rfl rfl).elim
      | complex re im => cases hy
    | complex re im => cases hx

/-- An operation on numbers is reckoned in the widest kind of its operands. -/
theorem onNumbers_combine_iff :
    onNumbers (Numeric.combine onInt onFloat onComplex) a b = .ok v ↔
      Reckons onInt onFloat onComplex a b v := by
  rw [onNumbers_eq_ok_iff]
  constructor
  · rintro ⟨p, q, r, hp, hq, h, rfl⟩
    exact reckons_of_combine hp hq h
  · rintro (⟨ha, hb, h⟩ | ⟨ha, hb, hkind, h⟩ | ⟨ha, hb, hkind, h⟩)
    · exact ⟨_, _, _, isInt_iff.1 ha, isInt_iff.1 hb, h, rfl⟩
    · obtain ⟨p, hp, hx⟩ := asFloat_iff.1 ha
      obtain ⟨q, hq, hy⟩ := asFloat_iff.1 hb
      refine ⟨p, q, .float _, hp, hq, ?_, rfl⟩
      rw [combine_floats hx hy, h]
      · rfl
      · rw [← ofValue?_float, ← ofValue?_float, hp, hq] at hkind
        simpa using hkind
    · obtain ⟨p, hp, hx⟩ := asComplex_iff.1 ha
      obtain ⟨q, hq, hy⟩ := asComplex_iff.1 hb
      refine ⟨p, q, .complex _ _, hp, hq, ?_, rfl⟩
      rw [combine_complexes hx hy, h]
      · rfl
      · rw [← ofValue?_complex, ← ofValue?_complex, hp, hq] at hkind
        simpa using hkind

end Combine

/-! ## Sequences -/

/-- Two texts, bytes or lists are joined. -/
inductive Joins : Value → Value → Value → Prop
  | texts (s t : String) : Joins (.text s) (.text t) (.text (s ++ t))
  | bytes (s t : List UInt8) : Joins (.bytes s) (.bytes t) (.bytes (s ++ t))
  | lists (s t : List Value) : Joins (.list s) (.list t) (.list (s ++ t))

/-- Items are repeated; a number that is no length, nor the opposite of one, does not count. -/
structure Repeats {α : Type} (xs : List α) (n : Int) (ys : List α) : Prop where
  least : -(maxLength + 1) ≤ n
  greatest : n ≤ maxLength
  eq : ys = (List.replicate n.toNat xs).flatten
  length_le : ys.length ≤ maxLength

/-- A text, bytes or a list is repeated. -/
inductive Copies (n : Int) : Value → Value → Prop
  | text {s : String} {cs : List Char} (h : Repeats s.toList n cs) :
      Copies n (.text s) (.text (String.ofList cs))
  | bytes {bs cs : List UInt8} (h : Repeats bs n cs) : Copies n (.bytes bs) (.bytes cs)
  | list {xs ys : List Value} (h : Repeats xs n ys) : Copies n (.list xs) (.list ys)

/-- A list is repeated if the result is no longer than a list can be. -/
theorem repeated_eq_ok_iff {α : Type} {long : Fault} {xs ys : List α} :
    repeated long xs n = .ok ys ↔ Repeats xs n ys := by
  have hlength : ((List.replicate n.toNat xs).flatten).length = xs.length * n.toNat := by
    simp [Nat.mul_comm]
  have hempty (h : xs.isEmpty = true) : [] = (List.replicate n.toNat xs).flatten := by
    simp [List.isEmpty_iff.1 h]
  unfold repeated
  split
  case isTrue hbad =>
    refine ⟨(by cases ·), fun h => ?_⟩
    have hleast := h.least
    have hgreatest := h.greatest
    omega
  case isFalse hgood =>
    split
    case isTrue hlong =>
      refine ⟨(by cases ·), fun h => ?_⟩
      have hle := h.length_le
      rw [h.eq, hlength] at hle
      omega
    case isFalse hshort =>
      have heq : (if xs.isEmpty = true then .ok [] else .ok (List.replicate n.toNat xs).flatten) =
          (.ok (List.replicate n.toNat xs).flatten : Except Fault (List α)) := by
        split
        case isTrue h => rw [← hempty h]
        case isFalse => rfl
      rw [heq, Except.ok.injEq]
      refine ⟨?_, fun h => h.eq.symm⟩
      rintro rfl
      exact ⟨by omega, by omega, rfl, by omega⟩

theorem repeatSequence_eq_ok_iff : repeatSequence a n = .ok v ↔ Copies n a v := by
  constructor
  · intro h
    unfold repeatSequence at h
    split at h
    case h_4 => cases h
    all_goals
      obtain ⟨ys, hys, rfl⟩ := map_eq_ok_iff.1 h
      constructor
      exact repeated_eq_ok_iff.1 hys
  · rintro (h | h | h) <;> exact map_eq_ok_iff.2 ⟨_, repeated_eq_ok_iff.2 h, rfl⟩

theorem add_eq_ok_iff : add a b = .ok v ↔ Joins a b v ∨ onNumbers Numeric.add a b = .ok v := by
  constructor
  · intro h
    unfold add at h
    split at h
    case h_4 => exact .inr h
    all_goals
      cases h
      exact .inl (by constructor)
  · rintro (h | h)
    · cases h <;> rfl
    · obtain ⟨p, q, r, hp, hq, -⟩ := onNumbers_eq_ok_iff.1 h
      unfold add
      split
      case h_4 => exact h
      all_goals cases hp

theorem count?_eq_some_iff : count? a = some n ↔ IsInt a n := by
  constructor
  · intro h
    cases a <;> cases h
    · exact .bool _
    · exact .int _
  · rintro (_ | _) <;> rfl

/-- A product is one of numbers, or copies a sequence on either side. -/
theorem mul_eq_ok_iff :
    mul a b = .ok v ↔ onNumbers Numeric.mul a b = .ok v ∨
      (∃ n, Copies n a v ∧ IsInt b n) ∨ ∃ n, IsInt a n ∧ Copies n b v := by
  constructor
  · intro h
    unfold mul at h
    split at h
    case h_1 ha hb =>
      rw [onNumbers, ha, hb]
      exact .inl h
    case h_2 =>
      split at h
      case h_1 hb => exact .inr (.inl ⟨_, repeatSequence_eq_ok_iff.1 h, count?_eq_some_iff.1 hb⟩)
      case h_2 => cases h
    case h_3 =>
      split at h
      case h_1 ha => exact .inr (.inr ⟨_, count?_eq_some_iff.1 ha, repeatSequence_eq_ok_iff.1 h⟩)
      case h_2 => cases h
  · rintro (h | ⟨n, ha, hb⟩ | ⟨n, ha, hb⟩)
    · obtain ⟨p, q, r, hp, hq, hr, rfl⟩ := onNumbers_eq_ok_iff.1 h
      simp [mul, hp, hq, hr]
    · have hnumber : Numeric.ofValue? a = none := by cases ha <;> rfl
      simpa [mul, hnumber, count?_eq_some_iff.2 hb] using repeatSequence_eq_ok_iff.2 ha
    · have hnumber : Numeric.ofValue? b = none := by cases hb <;> rfl
      simpa [mul, hnumber, isInt_iff.1 ha, count?_eq_some_iff.2 ha] using
        repeatSequence_eq_ok_iff.2 hb

end Value

/-! ## The operations -/

open Value

/-- What an operation comes to. -/
inductive Computes : BinaryOp → Value → Value → Value → Prop
  | sum {a b v : Value} (h : Reckons (fun m n => .ok (.int (m + n))) (fun x y => .ok (x.add y))
      (fun x y => .ok (x.1.add y.1, x.2.add y.2)) a b v) : Computes .add a b v
  | difference {a b v : Value} (h : Reckons (fun m n => .ok (.int (m - n)))
      (fun x y => .ok (x.sub y)) (fun x y => .ok (x.1.sub y.1, x.2.sub y.2)) a b v) :
      Computes .sub a b v
  | product {a b v : Value} (h : Reckons (fun m n => .ok (.int (m * n)))
      (fun x y => .ok (x.mul y)) (fun x y =>
        .ok ((x.1.mul y.1).sub (x.2.mul y.2), (x.1.mul y.2).add (x.2.mul y.1))) a b v) :
      Computes .mul a b v
  | quotient {a b v : Value} (h : Reckons
      (fun m n => if n = 0 then .error .zeroDivision
        else (orFault .quotientTooLarge (Binary64.ofIntRatio? m n)).map .float)
      (fun x y => if y.isZero then .error .zeroDivision else .ok (x.div y)) Numeric.divComplex
      a b v) : Computes .div a b v
  | joined {a b v : Value} (h : Joins a b v) : Computes .add a b v
  | copied {a b v : Value} {n : Int} (ha : Copies n a v) (hb : IsInt b n) : Computes .mul a b v
  | copies {a b v : Value} {n : Int} (ha : IsInt a n) (hb : Copies n b v) : Computes .mul a b v

/-- An operator computes what its relation says. -/
theorem BinaryOp.apply_eq_ok_iff {op : BinaryOp} {f : Value → Value → Except Fault Value}
    {a b v : Value} (hop : op.onValues? = some f) : f a b = .ok v ↔ Computes op a b v := by
  cases op <;> cases hop
  case add =>
    rw [add_eq_ok_iff, Numeric.add, onNumbers_combine_iff]
    refine ⟨fun h => h.elim .joined .sum, fun h => ?_⟩
    cases h with
    | sum h => exact .inr h
    | joined h => exact .inl h
  case sub =>
    rw [Value.sub, Numeric.sub, onNumbers_combine_iff]
    refine ⟨.difference, fun h => ?_⟩
    cases h with
    | difference h => exact h
  case mul =>
    rw [mul_eq_ok_iff, Numeric.mul, onNumbers_combine_iff]
    constructor
    · rintro (h | ⟨n, ha, hb⟩ | ⟨n, ha, hb⟩)
      exacts [.product h, .copied ha hb, .copies ha hb]
    · intro h
      cases h with
      | product h => exact .inl h
      | copied ha hb => exact .inr (.inl ⟨_, ha, hb⟩)
      | copies ha hb => exact .inr (.inr ⟨_, ha, hb⟩)
  case div =>
    rw [Value.div, Numeric.div, onNumbers_combine_iff]
    refine ⟨.quotient, fun h => ?_⟩
    cases h with
    | quotient h => exact h

/-! ## Keys -/

namespace Value

/-- Where a number stands: the places of its real and its imaginary part. -/
inductive Stands : Value → Line → Line → Prop
  | int {a : Value} {n : Int} (h : IsInt a n) : Stands a (.of n) (.of 0)
  | float {x : Binary64} {p : Line} (h : x.place? = some p) : Stands (.float x) p (.of 0)
  | complex {re im : Binary64} {p q : Line} (hre : re.place? = some p) (him : im.place? = some q) :
      Stands (.complex re im) p q

/-- Two values are the same key: numbers that stand at the same place, and else what reads the
same. -/
inductive SameKey : Value → Value → Prop
  | numbers {a b : Value} {p q : Line} (ha : Stands a p q) (hb : Stands b p q) : SameKey a b
  | null : SameKey .null .null
  | text (s : String) : SameKey (.text s) (.text s)
  | bytes (bs : List UInt8) : SameKey (.bytes bs) (.bytes bs)
  | ellipsis : SameKey .ellipsis .ellipsis
  | missing : SameKey .missing .missing
  | date (iso : String) : SameKey (.date iso) (.date iso)

variable {a b : Value}

/-- Where a real number of either kind stands. -/
def realPlace? : Int ⊕ Binary64 → Option Line
  | .inl n => some (.of n)
  | .inr x => x.place?

theorem compare?_eq_iff {x y : Binary64} :
    Binary64.compare? x y = some .eq ↔ ∃ p, x.place? = some p ∧ y.place? = some p := by
  cases hx : x.place? with
  | none => simp [Binary64.place?_eq_none.1 hx, Binary64.compare?_nan_left]
  | some p =>
    cases hy : y.place? with
    | none => simp [Binary64.place?_eq_none.1 hy, Binary64.compare?_nan_right]
    | some q =>
      obtain ⟨o, ho, hcompares⟩ := Binary64.exists_compare? hx hy
      rw [ho, Option.some_inj, hcompares.eq_eq]
      simp [eq_comm]

theorem compareInt_eq_iff {n : Int} {y : Binary64} :
    Binary64.compareInt n y = some .eq ↔ y.place? = some (.of n) := by
  cases hy : y.place? with
  | none => simp [Binary64.place?_eq_none.1 hy, Binary64.compareInt]
  | some q =>
    obtain ⟨o, ho, hcompares⟩ := Binary64.exists_compareInt n hy
    rw [ho, Option.some_inj, hcompares.eq_eq, Option.some_inj, eq_comm]

theorem sameReal_iff {x y : Int ⊕ Binary64} :
    sameReal x y = true ↔ ∃ p, realPlace? x = some p ∧ realPlace? y = some p := by
  rcases x with m | x <;> rcases y with n | y
  · simpa [sameReal, realPlace?] using eq_comm
  · simp [sameReal, realPlace?, compareInt_eq_iff]
  · simp [sameReal, realPlace?, compareInt_eq_iff]
  · rw [sameReal, beq_iff_eq, compare?_eq_iff]
    rfl

theorem place?_zero : (Binary64.zero false).place? = some (.of 0) := by
  have hzero := Binary64.denotes_zero false
  rw [Binary64.place?_of_isFinite hzero.isFinite, hzero.value_eq]

/-- The place of a number on the line is that of its real and imaginary parts. -/
theorem stands_iff {p q : Line} :
    Stands a p q ↔ ∃ x i, a.number? = some (x, i) ∧ realPlace? x = some p ∧ i.place? = some q := by
  constructor
  · rintro (⟨_ | _⟩ | h | ⟨hre, him⟩)
    · exact ⟨_, _, rfl, rfl, place?_zero⟩
    · exact ⟨_, _, rfl, rfl, place?_zero⟩
    · exact ⟨_, _, rfl, h, place?_zero⟩
    · exact ⟨_, _, rfl, hre, him⟩
  · rintro ⟨x, i, ha, hx, hi⟩
    have hzero {q : Line} (h : (Binary64.zero false).place? = some q) : q = .of 0 :=
      Option.some.inj (h.symm.trans place?_zero)
    cases a <;> cases ha
    · cases hx
      exact hzero hi ▸ .int (.bool _)
    · cases hx
      exact hzero hi ▸ .int (.int _)
    · exact hzero hi ▸ .float hx
    · exact .complex hx hi

/-- Keys are compared as numbers by their place, and else as what they read. -/
theorem sameKey_iff : a.sameKey b = true ↔ SameKey a b := by
  constructor
  · intro h
    unfold sameKey at h
    split at h
    case h_1 ha hb =>
      rw [Bool.and_eq_true, sameReal_iff, beq_iff_eq, compare?_eq_iff] at h
      obtain ⟨⟨p, hx, hy⟩, q, hi, hj⟩ := h
      exact .numbers (stands_iff.2 ⟨_, _, ha, hx, hi⟩) (stands_iff.2 ⟨_, _, hb, hy, hj⟩)
    case h_4 =>
      split at h
      case h_1 => exact .null
      case h_4 => exact .ellipsis
      case h_5 => exact .missing
      case h_7 => cases h
      all_goals obtain rfl := beq_iff_eq.1 h
      exacts [.text _, .bytes _, .date _]
    all_goals cases h
  · intro h
    cases h with
    | numbers ha hb =>
      obtain ⟨x, i, hx, hp, hq⟩ := stands_iff.1 ha
      obtain ⟨y, j, hy, hp', hq'⟩ := stands_iff.1 hb
      simp only [sameKey, hx, hy, Bool.and_eq_true, sameReal_iff, beq_iff_eq, compare?_eq_iff]
      exact ⟨⟨_, hp, hp'⟩, _, hq, hq'⟩
    | _ => simp [sameKey, number?]

instance : DecidableRel SameKey := fun _ _ => decidable_of_iff _ sameKey_iff

end Value

/-- The dictionary that entries make: of equal keys the first one stays, with the value that was
given last. -/
inductive Collects : List (Value × Value) → List (Value × Value) → Prop
  | nil : Collects [] []
  | cons {key value : Value} {rest entries : List (Value × Value)}
      (h : Collects (rest.filter fun e => ¬ SameKey key e.1) entries) :
      Collects ((key, value) :: rest)
        ((key, ((rest.filter fun e => SameKey key e.1).map Prod.snd).getLastD value) :: entries)

theorem foldl_putEntry_cons (key value : Value) (acc entries : List (Value × Value)) :
    entries.foldl (fun acc e => putEntry e.1 e.2 acc) ((key, value) :: acc) =
      (key, ((entries.filter fun e => SameKey key e.1).map Prod.snd).getLastD value) ::
        (entries.filter fun e => ¬ SameKey key e.1).foldl (fun acc e => putEntry e.1 e.2 acc)
          acc := by
  induction entries generalizing value acc with
  | nil => rfl
  | cons e entries ih =>
    by_cases h : SameKey key e.1
    · rw [List.foldl_cons, putEntry, if_pos (sameKey_iff.2 h), ih,
        List.filter_cons_of_pos (by simpa), List.filter_cons_of_neg (by simpa), List.map_cons,
        List.getLastD_cons]
    · rw [List.foldl_cons, putEntry, if_neg (mt sameKey_iff.1 h), ih,
        List.filter_cons_of_neg (by simpa), List.filter_cons_of_pos (by simpa)]
      rfl

theorem collects_foldl : ∀ entries : List (Value × Value),
    Collects entries (entries.foldl (fun acc e => putEntry e.1 e.2 acc) [])
  | [] => .nil
  | (key, value) :: rest => by
    rw [List.foldl_cons, putEntry, foldl_putEntry_cons]
    exact .cons (collects_foldl _)
termination_by entries => entries.length
decreasing_by exact Nat.lt_succ_of_le (List.length_filter_le ..)

theorem Collects.eq_foldl {entries es : List (Value × Value)} (h : Collects entries es) :
    es = entries.foldl (fun acc e => putEntry e.1 e.2 acc) [] := by
  induction h with
  | nil => rfl
  | cons h ih => rw [List.foldl_cons, putEntry, foldl_putEntry_cons, ih]

theorem entries_eq (acc entries : List (Value × Value)) :
    ExprForm.literal?.entries acc (entries.map fun e => (some e.1, some e.2)) =
      if entries.all (·.1.isKey) then
        some (entries.foldl (fun acc e => putEntry e.1 e.2 acc) acc) else none := by
  induction entries generalizing acc with
  | nil => rfl
  | cons e entries ih =>
    obtain ⟨key, value⟩ := e
    rw [List.map_cons, ExprForm.literal?.entries, ih, List.all_cons]
    cases key.isKey <;> rfl

/-- Only complete entries make a dictionary. -/
theorem exists_entries {acc es : List (Value × Value)} {pairs : List (Option Value × Option Value)}
    (h : ExprForm.literal?.entries acc pairs = some es) :
    ∃ entries : List (Value × Value), pairs = entries.map fun e => (some e.1, some e.2) := by
  induction pairs generalizing acc with
  | nil => exact ⟨[], rfl⟩
  | cons p pairs ih =>
    obtain ⟨_ | k, _ | v⟩ := p
    case some.some =>
      simp only [ExprForm.literal?.entries, Option.ite_none_right_eq_some] at h
      obtain ⟨entries, rfl⟩ := ih h.2
      exact ⟨(k, v) :: entries, rfl⟩
    all_goals cases h

theorem entries_eq_some_iff {pairs : List (Option Value × Option Value)}
    {es : List (Value × Value)} :
    ExprForm.literal?.entries [] pairs = some es ↔
      ∃ entries, pairs = entries.map (fun e => (some e.1, some e.2)) ∧
        (∀ e ∈ entries, e.1.isKey = true) ∧ Collects entries es := by
  constructor
  · intro h
    obtain ⟨entries, rfl⟩ := exists_entries h
    rw [entries_eq, Option.ite_none_right_eq_some, Option.some_inj, List.all_eq_true] at h
    exact ⟨entries, rfl, h.1, h.2 ▸ collects_foldl entries⟩
  · rintro ⟨entries, rfl, hkeys, h⟩
    rw [entries_eq, if_pos (List.all_eq_true.2 hkeys), h.eq_foldl]

end RouteLens
