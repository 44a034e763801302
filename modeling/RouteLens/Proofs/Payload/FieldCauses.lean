import RouteLens.Payload.Scalar
import RouteLens.Proofs.Payload.AnnotationCauses

/-!
# Why a field has no sample

What is known about a field comes from its annotation and from the constraints that its declaration
gives.  The bounds among it are the numbers that were written there, so that a sample that cannot be
computed is caused by one of them.
-/

namespace RouteLens

variable {edition : Nat} [CharacterNames edition]

variable {S : Fault → Prop}

/-! ## Numbers -/

/-- All faults that computing with a number may cause are expected. -/
def Quantity.CausesOnly (S : Fault → Prop) (q : Quantity) : Prop :=
  ∀ f ∈ q.faults, S f

namespace Quantity.CausesOnly

variable {q a b : Quantity} {n : Int}

theorem int_large (h : (Quantity.int n).CausesOnly S) (hn : Binary64.overflow ≤ n.natAbs + 1) :
    S .integerTooLarge ∧ S .quotientTooLarge := by
  have hfaults : (Quantity.int n).faults = [.integerTooLarge, .quotientTooLarge] := if_pos hn
  exact ⟨h _ (by simp [hfaults]), h _ (by simp [hfaults])⟩

theorem int_small (hn : n.natAbs + 1 < Binary64.overflow) : (Quantity.int n).CausesOnly S := by
  intro f hf
  rw [faults, if_neg (Nat.not_le.2 hn)] at hf
  cases hf

theorem one : (Quantity.float .one).CausesOnly S :=
  nofun

theorem rounded (h : q.CausesOnly S) (divide : Int → Int → Int) :
    Succeeds S (q.rounded (Binary64.toIntWith divide)) := by
  cases q with
  | int n => exact succeeds_ok n
  | float x =>
    cases x with
    | nan => exact .error (h _ List.mem_cons_self)
    | infinite s => exact .error (h _ List.mem_cons_self)
    | finite s m e hc => exact succeeds_ok _

theorem toFloat (h : q.CausesOnly S) : Succeeds S q.toFloat := by
  cases q with
  | float x => exact succeeds_ok x
  | int n =>
    by_cases hn : n.natAbs < Binary64.overflow
    · obtain ⟨x, hx⟩ := Binary64.exists_ofInt_of_lt hn
      rw [Quantity.toFloat, Value.floatOfInt, hx]
      exact succeeds_ok x
    · rw [Quantity.toFloat, Value.floatOfInt]
      cases Binary64.ofInt? n with
      | none => exact .error (h.int_large (by omega)).1
      | some x => exact succeeds_ok x

/-- A step of one from a number stays in range, or the number is at its end. -/
theorem shift (h : q.CausesOnly S) (hn : n.natAbs = 1) :
    Succeeds S (q.shift n >>= Quantity.toFloat) := by
  cases q with
  | int m =>
    have hsum : (m + n).natAbs ≤ m.natAbs + 1 := (Int.natAbs_add_le m n).trans_eq (by rw [hn])
    rw [Quantity.shift, ok_bind, Quantity.toFloat, Value.floatOfInt]
    by_cases hm : Binary64.overflow ≤ m.natAbs + 1
    · cases Binary64.ofInt? (m + n) with
      | none => exact .error (h.int_large hm).1
      | some x => exact succeeds_ok x
    · obtain ⟨x, hx⟩ := Binary64.exists_ofInt_of_lt (hsum.trans_lt (Nat.not_le.1 hm))
      rw [hx]
      exact succeeds_ok x
  | float x =>
    have hsmall : n.natAbs < Binary64.overflow := by
      rw [hn]
      decide +kernel
    obtain ⟨y, hy⟩ := Binary64.exists_ofInt_of_lt hsmall
    rw [Quantity.shift, Value.floatOfInt, hy, orFault_some, ok_bind, pure_eq_ok, ok_bind,
      Quantity.toFloat]
    exact succeeds_ok _

/-- A mean fails only where a number is too large to be converted. -/
theorem midpoint (ha : a.CausesOnly S) (hb : b.CausesOnly S) : Succeeds S (a.midpoint b) := by
  have hfloats (two : Binary64) : Succeeds S (do
      let sum := (← a.toFloat).add (← b.toFloat)
      return sum.div two : Except Fault Binary64) :=
    ha.toFloat.bind fun _ _ => hb.toFloat.bind fun _ _ => succeeds_ok _
  cases a with
  | float x =>
    rw [Quantity.midpoint]
    · exact hfloats _
    · nofun
  | int m =>
    cases b with
    | float y =>
      rw [Quantity.midpoint]
      · exact hfloats _
      · nofun
    | int n =>
      rw [Quantity.midpoint]
      cases hmid : Binary64.ofIntRatio? (m + n) 2 with
      | some x => exact succeeds_ok x
      | none =>
        -- one of the two is large, or their sum would be in range
        by_cases hm : Binary64.overflow ≤ m.natAbs + 1
        · exact .error (ha.int_large hm).2
        · refine .error (hb.int_large ?_).2
          by_contra hn
          obtain ⟨x, hx⟩ := Binary64.exists_half_of_lt (n := m + n)
            ((Int.natAbs_add_le m n).trans_lt (by omega))
          rw [hmid] at hx
          cases hx

theorem least (ha : a.CausesOnly S) (hb : b.CausesOnly S) : (a.least b).CausesOnly S := by
  unfold Quantity.least
  split
  · exact hb
  · exact ha

theorem greatest (ha : a.CausesOnly S) (hb : b.CausesOnly S) : (a.greatest b).CausesOnly S := by
  unfold Quantity.greatest
  split
  · exact hb
  · exact ha

end Quantity.CausesOnly

theorem Expr.causesOnly_of_boundFaults {e : Expr} (h : ∀ f ∈ e.boundFaults, S f) :
    ∀ q ∈ e.quantity?, q.CausesOnly S := by
  intro q hq f hf
  refine h f ?_
  rw [boundFaults, Option.mem_def.1 hq]
  exact hf

theorem forall_of_boundFaults {es : List Expr} (h : ∀ f ∈ es.flatMap Expr.boundFaults, S f) :
    ∀ e ∈ es, ∀ f ∈ e.boundFaults, S f :=
  fun e he f hf => h f (List.mem_flatMap.2 ⟨e, he, hf⟩)

theorem forall_keyword_of_boundFaults {keywords : List Keyword}
    (h : ∀ f ∈ keywords.flatMap Keyword.boundFaults, S f) :
    ∀ k ∈ keywords, ∀ f ∈ k.boundFaults, S f :=
  fun k hk f hf => h f (List.mem_flatMap.2 ⟨k, hk, hf⟩)

/-! ## Facts about a field -/

namespace FieldFacts

/-- The fault of a length that is too large for a text is expected, if the length is. -/
def LengthExpected (S : Fault → Prop) (length : Option Int) : Prop :=
  ∀ n ∈ length, (Value.maxLength : Int) < n → S .lengthTooLarge

/-- The bounds of a field cause only expected faults, and so does its least length. -/
structure CausesOnly (S : Fault → Prop) (t : FieldFacts) : Prop where
  minimum : ∀ q ∈ t.minimum, q.CausesOnly S
  maximum : ∀ q ∈ t.maximum, q.CausesOnly S
  minLength : LengthExpected S t.minLength

variable {t : FieldFacts} {v : Value} {value : Expr} {args : List Expr} {keywords : List Keyword}

theorem CausesOnly.bound (h : t.CausesOnly S) (side : Side) :
    ∀ q ∈ t.bound? side, q.CausesOnly S := by
  cases side with
  | lower => exact h.minimum
  | upper => exact h.maximum

theorem CausesOnly.setBound {q : Quantity} (h : t.CausesOnly S) (hq : q.CausesOnly S) (e : Bool)
    (side : Side) : (t.setBound q e side).CausesOnly S := by
  cases side with
  | lower => exact ⟨by rintro _ ⟨⟩; exact hq, h.maximum, h.minLength⟩
  | upper => exact ⟨h.minimum, by rintro _ ⟨⟩; exact hq, h.minLength⟩

theorem CausesOnly.tighten (h : t.CausesOnly S) (side : Side)
    (hv : ∀ q ∈ Quantity.ofValue? v, q.CausesOnly S) (exclusive : Bool) :
    (t.tighten side v exclusive).CausesOnly S := by
  unfold FieldFacts.tighten
  split
  · exact h
  · rename_i q hq _
    exact h.setBound (hv q hq) exclusive side
  · rename_i q m hq hm
    split
    · exact h.setBound (hv q hq) exclusive side
    · split
      · exact h.setBound (h.bound side m hm) _ side
      · exact h

theorem succeeds_lengthOf (h : ∀ f ∈ value.boundFaults, S f) :
    Succeeds S (lengthOf? value.literal?) := by
  unfold lengthOf?
  split
  · exact succeeds_ok none
  · rename_i q hq
    exact ((Expr.causesOnly_of_boundFaults h q hq).rounded _).map fun _ _ => trivial

/-- A length that is read from an expression is too large only if the expression causes that. -/
theorem lengthExpected_of_lengthOf (h : ∀ f ∈ value.lengthFaults, S f) {length : Option Int}
    (hlength : lengthOf? value.literal? = .ok length) : LengthExpected S length := by
  unfold lengthOf? at hlength
  split at hlength
  · cases hlength
    exact nofun
  · rename_i q hq
    obtain ⟨n, hn, rfl⟩ := map_eq_ok_iff.1 hlength
    rintro _ ⟨⟩ hlarge
    refine h _ ?_
    have hfaults : q.lengthFaults = [.lengthTooLarge] := by
      rw [Quantity.lengthFaults, hn, if_pos]
      exact decide_eq_true hlarge
    rw [Expr.lengthFaults, show value.quantity? = some q from hq, Option.elim_some, hfaults]
    exact List.mem_cons_self

theorem LengthExpected.max {length : Option Int} {n : Int} (h : LengthExpected S length)
    (hn : LengthExpected S (some n)) : LengthExpected S (some (max (length.getD 0) n)) := by
  rintro _ ⟨⟩ hlarge
  rcases max_choice (length.getD 0) n with heq | heq
  · rw [heq] at hlarge
    cases length with
    | none => exact absurd hlarge (by decide)
    | some m => exact h m rfl hlarge
  · exact hn n rfl (heq ▸ hlarge)

/-- A constraint that is read adds only faults that its value may cause. -/
theorem CausesOnly.constrain (h : t.CausesOnly S) (name : String)
    (hvalue : ∀ f ∈ value.boundFaults, S f)
    (hleast : isLeastLength name = true → ∀ f ∈ value.lengthFaults, S f) :
    Meets S (FieldFacts.CausesOnly S) (t.constrain name value) := by
  have hlength := (succeeds_lengthOf hvalue).and_eq
  have hexpected (hname : isLeastLength name = true) (length : Option Int)
      (hlength : lengthOf? value.literal? = .ok length) : LengthExpected S length :=
    lengthExpected_of_lengthOf (hleast hname) hlength
  have hquantity := Expr.causesOnly_of_boundFaults hvalue
  unfold FieldFacts.constrain
  cases hv : value.literal? with
  | none => exact .ok h
  | some v =>
    rw [hv] at hlength hexpected
    rw [Expr.quantity?, hv] at hquantity
    -- a length leaves the bounds alone
    have hlearn {next : Option Int → Except Fault FieldFacts} (hnone : next none = .ok t)
        (hsome : ∀ n, lengthOf? (some v) = .ok (some n) →
          ∃ t', next (some n) = .ok t' ∧ t'.CausesOnly S) :
        Meets S (FieldFacts.CausesOnly S) (lengthOf? (some v) >>= next) := by
      refine hlength.bind fun n hn => ?_
      cases n with
      | none =>
        rw [hnone]
        exact .ok h
      | some n =>
        obtain ⟨t', ht', h'⟩ := hsome n hn.2
        rw [ht']
        exact .ok h'
    simp only
    split
    · exact hlearn rfl fun n hn =>
        ⟨_, rfl, h.minimum, h.maximum, h.minLength.max (hexpected rfl _ hn)⟩
    · exact hlearn rfl fun n hn =>
        ⟨_, rfl, h.minimum, h.maximum, h.minLength.max (hexpected rfl _ hn)⟩
    · exact hlearn rfl fun n _ => ⟨_, rfl, h.minimum, h.maximum, h.minLength⟩
    · exact hlearn rfl fun n _ => ⟨_, rfl, h.minimum, h.maximum, h.minLength⟩
    · exact .ok (h.tighten .lower hquantity false)
    · exact .ok (h.tighten .lower hquantity true)
    · exact .ok (h.tighten .upper hquantity false)
    · exact .ok (h.tighten .upper hquantity true)
    · exact .ok h

theorem CausesOnly.constrainAll (h : t.CausesOnly S)
    (hkeywords : ∀ k ∈ keywords, ∀ f ∈ k.boundFaults, S f) :
    Meets S (FieldFacts.CausesOnly S) (t.constrainAll keywords) := by
  refine meets_foldlM h fun t h k hk => ?_
  split
  · exact .ok h
  · rename_i n hn
    obtain ⟨hvalue, hleast⟩ := List.forall_mem_append.1 (hkeywords k hk)
    refine h.constrain n hvalue fun hname => ?_
    rwa [hn, Option.any_some, hname, if_pos rfl] at hleast

/-- The declaration of a field adds only the faults of its keywords. -/
theorem CausesOnly.declareField (h : t.CausesOnly S)
    (hkeywords : ∀ k ∈ keywords, ∀ f ∈ k.boundFaults, S f) :
    Meets S (FieldFacts.CausesOnly S) (t.declareField args keywords) := by
  have hdeclare (t : FieldFacts) (h : t.CausesOnly S) (k : Keyword) :
      (t.declare k).CausesOnly S := by
    unfold declare
    split
    · split
      · exact h
      · exact ⟨h.minimum, h.maximum, h.minLength⟩
    · split
      · exact h
      · exact ⟨h.minimum, h.maximum, h.minLength⟩
    · split
      · exact ⟨h.minimum, h.maximum, h.minLength⟩
      · exact h
    · exact h
  have hdefault : (t.declareDefault args).CausesOnly S := by
    unfold declareDefault
    split
    · split
      · exact h
      · exact ⟨h.minimum, h.maximum, h.minLength⟩
    · exact h
  refine CausesOnly.constrainAll ?_ hkeywords
  clear hkeywords
  generalize t.declareDefault args = t' at hdefault
  induction keywords generalizing t' with
  | nil => exact hdefault
  | cons k keywords ih => exact ih _ (hdeclare t' hdefault k)

/-- A marker of a bound gives no length. -/
theorem isLeastLength_of_boundKeyword {name keyword : String}
    (h : boundKeyword? name = some keyword) : isLeastLength keyword = false := by
  unfold boundKeyword? at h
  split at h <;> cases h <;> rfl

/-- A marker adds only the faults of its arguments. -/
theorem CausesOnly.applyMarker (h : t.CausesOnly S) (name : String)
    (hfaults : ∀ f ∈ markerFaults name args keywords, S f) :
    Meets S (FieldFacts.CausesOnly S) (t.applyMarker name args keywords) := by
  rw [markerFaults, List.forall_mem_append, List.forall_mem_append] at hfaults
  obtain ⟨⟨hargs, hleast⟩, hkeywords⟩ := hfaults
  have hargs := forall_of_boundFaults hargs
  have hkeywords := forall_keyword_of_boundFaults hkeywords
  unfold FieldFacts.applyMarker
  split
  · refine (succeeds_lengthOf (hargs _ List.mem_cons_self)).and_eq.bind fun n hn => ?_
    exact .ok ⟨h.minimum, h.maximum, lengthExpected_of_lengthOf hleast hn.2⟩
  · refine (succeeds_lengthOf (hargs _ List.mem_cons_self)).and_eq.bind fun n hn => ?_
    have hn := lengthExpected_of_lengthOf hleast hn.2
    split
    · refine (succeeds_lengthOf (hargs _ ?_)).bind fun m _ => .ok ⟨h.minimum, h.maximum, hn⟩
      exact List.mem_cons_of_mem _ List.mem_cons_self
    · exact .ok ⟨h.minimum, h.maximum, hn⟩
  · exact (succeeds_lengthOf (hargs _ List.mem_cons_self)).bind fun n _ =>
      .ok ⟨h.minimum, h.maximum, h.minLength⟩
  · split
    · rename_i keyword hkeyword
      refine h.constrain _ (hargs _ List.mem_cons_self) fun hname => ?_
      rw [isLeastLength_of_boundKeyword hkeyword] at hname
      cases hname
    · exact h.constrainAll hkeywords
  · exact h.constrainAll hkeywords

theorem CausesOnly.applyMetadata (h : t.CausesOnly S) {e : Expr}
    (he : ∀ f ∈ e.metadataFaults, S f) :
    Meets S (FieldFacts.CausesOnly S) (t.applyMetadata e) := by
  obtain ⟨span, form⟩ := e
  cases form with
  | call func args keywords =>
    simp only [FieldFacts.applyMetadata]
    by_cases hcall : isFieldCall func.terminalName? = true
    · rw [Expr.metadataFaults, if_pos hcall] at he
      rw [if_pos hcall]
      exact h.declareField (forall_keyword_of_boundFaults he)
    · rw [Expr.metadataFaults, if_neg hcall] at he
      rw [if_neg hcall]
      exact h.applyMarker _ he
  | _ => exact .ok h

/-- The bounds that the name of a type implies are small. -/
theorem causesOnly_of_mem_scalarTypes {s : ScalarType} {name : String}
    (h : scalarTypes.lookup name = some s) :
    (∀ n ∈ s.minimum, (Quantity.int n).CausesOnly S) ∧
      ∀ n ∈ s.maximum, (Quantity.int n).CausesOnly S := by
  have hsmall : ∀ e ∈ scalarTypes, (∀ n ∈ e.2.minimum, n.natAbs + 1 < Binary64.overflow) ∧
      ∀ n ∈ e.2.maximum, n.natAbs + 1 < Binary64.overflow := by
    decide +kernel
  obtain ⟨before, after, hsplit, -⟩ := List.lookup_eq_some_iff.1 h
  obtain ⟨hmin, hmax⟩ := hsmall (name, s) (by rw [hsplit]; simp)
  exact ⟨fun n hn => .int_small (hmin n hn), fun n hn => .int_small (hmax n hn)⟩

/-- The name of a type adds no fault. -/
theorem CausesOnly.applyTypeName (h : t.CausesOnly S) (name : String) :
    (t.applyTypeName name).CausesOnly S := by
  unfold FieldFacts.applyTypeName
  split
  · exact ⟨h.minimum, h.maximum, h.minLength⟩
  · rename_i s _ hs
    obtain ⟨hmin, hmax⟩ := causesOnly_of_mem_scalarTypes (S := S) hs
    have hkind : ({ t with kind := some s.kind } : FieldFacts).CausesOnly S :=
      ⟨h.minimum, h.maximum, h.minLength⟩
    have hbound (n : Int) (hn : (Quantity.int n).CausesOnly S) :
        ∀ q ∈ Quantity.ofValue? (.int n), q.CausesOnly S := by
      rintro _ ⟨⟩
      exact hn
    cases hminimum : s.minimum with
    | none =>
      cases hmaximum : s.maximum with
      | none => exact hkind
      | some n => exact hkind.tighten .upper (hbound n (hmax n hmaximum)) false
    | some m =>
      have hraised := hkind.tighten .lower (hbound m (hmin m hminimum)) false
      cases hmaximum : s.maximum with
      | none => exact hraised
      | some n => exact hraised.tighten .upper (hbound n (hmax n hmaximum)) false
  · split
    · exact ⟨h.minimum, h.maximum, h.minLength⟩
    · split
      · exact ⟨h.minimum, h.maximum, h.minLength⟩
      · exact ⟨h.minimum, h.maximum, h.minLength⟩

end FieldFacts

/-! ## Samples -/

/-- The numbers of a point cause only expected faults, and it lies at most one beside them. -/
def Point.CausesOnly (S : Fault → Prop) : Point → Prop
  | .bound q => q.CausesOnly S
  | .beside q n => q.CausesOnly S ∧ n.natAbs = 1
  | .midpoint a b => a.CausesOnly S ∧ b.CausesOnly S

theorem Point.CausesOnly.toFloat {p : Point} (h : p.CausesOnly S) : Succeeds S p.toFloat := by
  cases p with
  | bound q => exact Quantity.CausesOnly.toFloat h
  | beside q n => exact h.1.shift h.2
  | midpoint a b => exact h.1.midpoint h.2

namespace FieldFacts

variable {t : FieldFacts} (h : t.CausesOnly S)
include h

theorem CausesOnly.clampUnit : t.clampUnit.CausesOnly S := by
  have hraised {q : Quantity} (hq : q.CausesOnly S) (b : Quantity) (hb : t.minimum = some b) :
      (q.greatest b).CausesOnly S := hq.greatest (h.minimum b hb)
  unfold FieldFacts.clampUnit
  cases hmax : t.maximum with
  | none =>
    cases hmin : t.minimum with
    | none => exact .one
    | some b => exact hraised .one b hmin
  | some m =>
    have hlowered := Quantity.CausesOnly.one.least (h.maximum m hmax)
    cases hmin : t.minimum with
    | none => exact hlowered
    | some b => exact hraised hlowered b hmin

/-- The sample of a float is computed from the bounds alone. -/
theorem CausesOnly.floatPoint : t.floatPoint.CausesOnly S := by
  have hmin := h.minimum
  have hmax := h.maximum
  unfold FieldFacts.floatPoint
  split
  · exact h.clampUnit
  · split
    · rename_i lo hi hlo hhi
      split
      · exact ⟨hmin lo hlo, hmax hi hhi⟩
      · split
        · exact ⟨hmin lo hlo, rfl⟩
        · exact hmin lo hlo
    · rename_i lo hlo _
      split
      · exact ⟨hmin lo hlo, rfl⟩
      · exact hmin lo hlo
    · rename_i hi _ hhi
      exact ⟨hmax hi hhi, rfl⟩
    · exact Quantity.CausesOnly.one

theorem CausesOnly.outermostInt (side : Side) : Succeeds S (t.outermostInt? side) := by
  unfold outermostInt?
  cases hm : t.bound? side with
  | none => exact succeeds_ok none
  | some m =>
    have hcauses := h.bound side m hm
    simp only
    split
    · refine Meets.bind (P := fun _ => True) ?_ fun n _ => succeeds_ok _
      cases side <;> exact (hcauses.rounded _).bind fun n _ => succeeds_ok _
    · refine Meets.bind (P := fun _ => True) ?_ fun n _ => succeeds_ok _
      cases side <;> exact hcauses.rounded _

theorem CausesOnly.numberSample : Succeeds S t.numberSample := by
  unfold FieldFacts.numberSample
  split
  · have hint : Succeeds S t.intSample :=
      (h.outermostInt .lower).bind fun _ _ =>
        (h.outermostInt .upper).bind fun _ _ => succeeds_ok _
    exact hint.bind fun n _ => succeeds_ok _
  · exact h.floatPoint.toFloat.bind fun x _ => succeeds_ok _

/-- The check of a length fails only by a least length that may cause it. -/
theorem CausesOnly.checkLength : Succeeds S t.checkLength := by
  unfold FieldFacts.checkLength
  split
  · rename_i least _ _ hleast
    split
    · rename_i hlarge
      have hle : sampleLength least t.maxLength ≤ max least 1 := by
        unfold sampleLength
        split
        · split
          · exact min_le_left _ _
          · exact le_rfl
        · exact le_rfl
      refine .error (h.minLength least hleast ?_)
      rcases max_choice least 1 with heq | heq
      · omega
      · have hone : (1 : Int) ≤ Value.maxLength := by decide
        omega
    · exact succeeds_ok ()
  · exact succeeds_ok ()

end FieldFacts

/-! ## Field types -/

mutual

/-- What is known about a field causes only expected faults. -/
inductive FieldType.CausesOnly (S : Fault → Prop) : FieldType → Prop
  | mk {facts : FieldFacts} {element : Option ElementType} {fixed : Option (List ElementType)} :
      facts.CausesOnly S → (∀ e ∈ element, e.CausesOnly S) →
      (∀ es ∈ fixed, ∀ e ∈ es, e.CausesOnly S) → FieldType.CausesOnly S (.mk facts element fixed)

/-- What is known about an element causes only expected faults. -/
inductive ElementType.CausesOnly (S : Fault → Prop) : ElementType → Prop
  | ok {e : Expr} {t : FieldType} : Succeeds S e.printed → t.CausesOnly S →
      ElementType.CausesOnly S (.mk e (.ok t))
  | error {e : Expr} {f : Fault} : Succeeds S e.printed → S f →
      ElementType.CausesOnly S (.mk e (.error f))

end

namespace FieldType.CausesOnly

variable {t : FieldType}

theorem facts (h : t.CausesOnly S) : t.facts.CausesOnly S := by
  cases h with
  | mk hfacts _ _ => exact hfacts

theorem unknown (typeText : String) : (FieldType.unknown typeText).CausesOnly S :=
  .mk ⟨nofun, nofun, nofun⟩ nofun nofun

theorem mapFacts (h : t.CausesOnly S) {f : FieldFacts → FieldFacts}
    (hf : ∀ facts : FieldFacts, facts.CausesOnly S → (f facts).CausesOnly S) :
    (t.mapFacts f).CausesOnly S := by
  cases h with
  | mk hfacts helement hfixed => exact .mk (hf _ hfacts) helement hfixed

theorem learn (h : t.CausesOnly S) {f : FieldFacts → Except Fault FieldFacts}
    (hf : ∀ facts : FieldFacts, facts.CausesOnly S →
      Meets S (FieldFacts.CausesOnly S) (f facts)) :
    Meets S (FieldType.CausesOnly S) (t.learn f) := by
  cases h with
  | mk hfacts helement hfixed =>
    exact (hf _ hfacts).bind fun facts hfacts => .ok (.mk hfacts helement hfixed)

theorem withElement (h : t.CausesOnly S) {e : Option ElementType}
    (he : ∀ e' ∈ e, e'.CausesOnly S) : (t.withElement e).CausesOnly S := by
  cases h with
  | mk hfacts helement hfixed =>
    cases e with
    | none => exact .mk hfacts helement hfixed
    | some e => exact .mk hfacts he hfixed

theorem markArray (h : t.CausesOnly S) :
    (t.mapFacts ({ · with isArray := true })).CausesOnly S :=
  h.mapFacts fun _ h => ⟨h.minimum, h.maximum, h.minLength⟩

theorem markOptional (h : t.CausesOnly S) (optional : Bool) :
    (if optional then t.mapFacts ({ · with optional := true }) else t).CausesOnly S := by
  split
  · exact h.mapFacts fun facts h => ⟨h.minimum, h.maximum, h.minLength⟩
  · exact h

end FieldType.CausesOnly

/-- An annotation can be printed, and what it adds to what is known causes only expected faults. -/
structure ReadsSoundly (S : Fault → Prop) (quoted : QuotedReader) (e : Expr) : Prop where
  printed : Succeeds S e.printed
  read : ∀ t, t.CausesOnly S → Meets S (FieldType.CausesOnly S) (e.readType quoted t)

section Annotations

variable {quoted : QuotedReader} {e : Expr}

theorem ReadsSoundly.element (h : ReadsSoundly S quoted e) :
    (e.readElement quoted).CausesOnly S := by
  obtain ⟨span, form⟩ := e
  have hread := h.read _ (.unknown (Expr.print (.node span form)))
  rw [Expr.readElement]
  rw [Expr.readType] at hread
  cases hresult : form.readType quoted (.unknown (Expr.print (.node span form))) with
  | ok t =>
    rw [hresult] at hread
    cases hread with
    | ok ht => exact .ok h.printed ht
  | error f =>
    rw [hresult] at hread
    cases hread with
    | error hf => exact .error h.printed hf

/-- Reading a call fails only by the faults of its keywords and parts. -/
theorem readsSoundly_call {span : Span} {func : Expr} {args : List Expr} {keywords : List Keyword}
    (he : Expr.CausesOnly S (.node span (.call func args keywords)))
    (hparts : ∀ e ∈ Expr.annotationParts (.node span (.call func args keywords)),
      ReadsSoundly S quoted e) :
    ReadsSoundly S quoted (.node span (.call func args keywords)) := by
  refine ⟨he.printed, fun t h => ?_⟩
  have hown : ∀ f ∈ Expr.readingFaults (.node span (.call func args keywords)), S f :=
    fun f hf => he.own hf
  rw [Expr.readingFaults] at hown
  rw [Expr.annotationParts] at hparts
  rw [Expr.readType, readType_call]
  simp only at hown ⊢
  generalize func.terminalName?.getD "" = name at hparts hown ⊢
  cases hkind : constrainedKind? name with
  | some kind =>
    rw [if_pos (by rw [hkind]; rfl)] at hown
    refine h.learn fun facts h => FieldFacts.CausesOnly.constrainAll ?_
      (forall_keyword_of_boundFaults hown)
    exact ⟨h.minimum, h.maximum, h.minLength⟩
  | none =>
    by_cases harray : isArrayCall name
    · rw [if_pos harray] at hparts
      rw [if_pos (by rw [harray, Bool.or_true])] at hown
      simp only [if_pos harray]
      have hfirst : ∀ e ∈ args.head?.map (·.readElement quoted), e.CausesOnly S := by
        intro e he
        obtain ⟨a, ha, rfl⟩ := Option.map_eq_some_iff.1 he
        exact (hparts a (List.mem_append_left _ (Option.mem_toList.2 ha))).element
      have hitem : ∀ e ∈ (itemTypeExpr? keywords).map (·.readElement quoted), e.CausesOnly S := by
        intro e he
        obtain ⟨a, ha, rfl⟩ := Option.map_eq_some_iff.1 he
        exact (hparts a (List.mem_append_right _ (Option.mem_toList.2 ha))).element
      exact ((h.markArray.withElement hfirst).withElement hitem).learn fun facts h =>
        h.constrainAll (forall_keyword_of_boundFaults hown)
    · simp only [if_neg harray]
      by_cases hdate : (name == "condate") = true
      · simp only [if_pos hdate]
        exact .ok (h.mapFacts fun facts h => ⟨h.minimum, h.maximum, h.minLength⟩)
      · simp only [if_neg hdate]
        exact .ok h

/-- What a wrapper makes of its arguments causes only expected faults, if those that it reads as
annotations and as metadata do. -/
theorem Wrapper.meets_read {w : Wrapper} {first : Expr} {rest : List Expr}
    {readMember : FieldType → Except Fault FieldType}
    (hread : ∀ e ∈ w.typeParts (first :: rest), ReadsSoundly S quoted e)
    (hmember : w = .union → ∀ t : FieldType, t.CausesOnly S →
      Meets S (FieldType.CausesOnly S) (readMember t))
    (hmetadata : ∀ e ∈ w.metadata (first :: rest), ∀ f ∈ e.metadataFaults, S f)
    {t : FieldType} (h : t.CausesOnly S) :
    Meets S (FieldType.CausesOnly S) (w.read (first :: rest) (first.readType quoted) readMember
      (fun _ => (first :: rest).map (·.readElement quoted)) t) := by
  cases w with
  | annotated =>
    refine ((hread first List.mem_cons_self).read t h).bind fun t h => h.learn fun facts h => ?_
    exact meets_foldlM h fun facts h e he => h.applyMetadata (hmetadata e he)
  | optional | required =>
    exact (hread first List.mem_cons_self).read _
      (h.mapFacts fun facts h => ⟨h.minimum, h.maximum, h.minLength⟩)
  | transparent => exact (hread first List.mem_cons_self).read _ h
  | union => exact hmember rfl _ (h.markOptional _)
  | array =>
    refine .ok (h.markArray.withElement ?_)
    rintro _ ⟨⟩
    exact (hread first List.mem_cons_self).element
  | tuple =>
    simp only [Wrapper.read]
    by_cases hopen : isOpenTuple (first :: rest)
    · simp only [if_pos hopen]
      refine .ok (h.markArray.withElement ?_)
      rintro _ ⟨⟩
      exact (hread first List.mem_cons_self).element
    · simp only [if_neg hopen]
      cases h with
      | mk hfacts helement hfixed =>
        refine .ok (.mk ⟨hfacts.minimum, hfacts.maximum, hfacts.minLength⟩ helement ?_)
        rintro _ ⟨⟩ e he
        obtain ⟨a, ha, rfl⟩ := List.mem_map.1 he
        exact (hread a ha).element
  | classVar | literal | mapping | named =>
    exact .ok (h.mapFacts fun facts h => ⟨h.minimum, h.maximum, h.minLength⟩)
  | unnamed => exact .ok h

/-- A subscription is read soundly if the arguments are that its wrapper reads. -/
theorem readsSoundly_subscript {span : Span} {base index : Expr}
    (he : Expr.CausesOnly S (.node span (.subscript base index)))
    (hparts : ∀ e ∈ Expr.annotationParts (.node span (.subscript base index)),
      e ∈ typeArguments index → ReadsSoundly S quoted e) :
    ReadsSoundly S quoted (.node span (.subscript base index)) := by
  refine ⟨he.printed, fun t h => ?_⟩
  rw [readType_subscript]
  cases hname : base.typeName with
  | error f =>
    have hbase := meets_typeName (he.part List.mem_cons_self)
    rw [hname] at hbase
    cases hbase with
    | error hf => exact .error hf.2
  | ok name =>
    -- the parts of the expression are those of the wrapper that its name turns out to be
    have hread (e : Expr) (he : e ∈ (Wrapper.ofName name).typeParts (typeArguments index)) :
        ReadsSoundly S quoted e := by
      have hpart := subset_byWrapper (Wrapper.typeParts_subset (typeArguments index)) hname he
      exact hparts e (List.mem_cons_of_mem _ hpart) (Wrapper.typeParts_subset _ _ he)
    have hmetadata : ∀ e ∈ (Wrapper.ofName name).metadata (typeArguments index),
        ∀ f ∈ e.metadataFaults, S f := by
      intro e hmem f hf
      have hpart := subset_byWrapper (Wrapper.metadata_subset (typeArguments index)) hname hmem
      exact he.own (List.mem_flatMap.2 ⟨e, hpart, hf⟩)
    rw [ok_bind]
    cases hcases : typeArguments index with
    | nil => exact .ok (h.mapFacts fun facts h => ⟨h.minimum, h.maximum, h.minLength⟩)
    | cons first rest =>
      rw [hcases] at hread hmetadata
      refine Wrapper.meets_read hread (fun hw t h => ?_) hmetadata h
      rw [hw] at hread
      cases hfind : (first :: rest).find? (!·.isNull) with
      | none => exact .ok h
      | some e => exact (hread e (Option.mem_toList.2 hfind)).read t h

theorem sizeOf_lt_of_itemTypeExpr {keywords : List Keyword} (h : itemTypeExpr? keywords = some e) :
    sizeOf e < sizeOf keywords := by
  obtain ⟨k, hk, rfl⟩ := Option.map_eq_some_iff.1 h
  have hsize := List.sizeOf_lt_of_mem (List.mem_filter.1 (List.mem_of_getLast? hk)).1
  obtain ⟨span, name, value⟩ := k
  simp only [Keyword.mk.sizeOf_spec] at hsize
  simp only [Keyword.value]
  omega

/-- An annotation is read soundly if the texts in it are. -/
theorem readsSoundly_of_quoted
    (hquoted : ∀ span s marked, Expr.CausesOnly S (.node span (.constant (.text s marked))) →
      ∀ t, t.CausesOnly S → Meets S (FieldType.CausesOnly S) (quoted s t))
    (he : e.CausesOnly S) : ReadsSoundly S quoted e := by
  -- as for the class of an annotation: parts by their size, texts by what is assumed of them
  induction e using Expr.sizeInduction with
  | step e ih =>
    obtain ⟨span, form⟩ := e
    cases form with
    | constant value =>
      cases value with
      | text s marked => exact ⟨he.printed, hquoted span s marked he⟩
      | _ => exact ⟨he.printed, fun t h => .ok h⟩
    | binary left op right =>
      simp only [Expr.node.sizeOf_spec, ExprForm.binary.sizeOf_spec] at ih
      cases op with
      | bitOr =>
        refine ⟨he.printed, fun t h => ?_⟩
        rw [readType_union]
        have hmarked := h.markOptional (left.isNull || right.isNull)
        simp only
        cases hfind : [left, right].find? (!·.isNull) with
        | none => exact .ok hmarked
        | some e =>
          have hsize : sizeOf e < 1 + sizeOf left + sizeOf right := by
            obtain rfl | rfl : e = left ∨ e = right := by
              simpa using List.mem_of_find?_eq_some hfind
            · omega
            · omega
          exact (ih e (by omega) (he.part (Option.mem_toList.2 hfind))).read _ hmarked
      | _ => exact ⟨he.printed, fun t h => .ok h⟩
    | call func args keywords =>
      simp only [Expr.node.sizeOf_spec, ExprForm.call.sizeOf_spec] at ih
      refine readsSoundly_call he fun e hpart => ih e ?_ (he.part hpart)
      rw [Expr.annotationParts] at hpart
      split at hpart
      · rcases List.mem_append.1 hpart with hfirst | hitem
        · have hsize := List.sizeOf_lt_of_mem (List.mem_of_head? (Option.mem_toList.1 hfirst))
          omega
        · have hsize := sizeOf_lt_of_itemTypeExpr (Option.mem_toList.1 hitem)
          omega
      · cases hpart
    | subscript base index =>
      simp only [Expr.node.sizeOf_spec, ExprForm.subscript.sizeOf_spec] at ih
      refine readsSoundly_subscript he fun e hpart harg => ?_
      have hsize := sizeOf_le_of_mem_typeArguments harg
      exact ih e (by omega) (he.part hpart)
    | name id => exact ⟨he.printed, fun t h => .ok (h.mapFacts fun facts h => h.applyTypeName id)⟩
    | «attribute» value attr =>
      exact ⟨he.printed, fun t h => .ok (h.mapFacts fun facts h => h.applyTypeName attr)⟩
    | _ => exact ⟨he.printed, fun t h => .ok h⟩

theorem meets_readQuotedType {fuel : Nat} {span : Span} {s : String} {marked : Bool}
    (h : Expr.CausesOnly S (.node span (.constant (.text s marked)))) {t : FieldType}
    (ht : t.CausesOnly S) : Meets S (FieldType.CausesOnly S) (readQuotedType fuel s t) := by
  induction fuel generalizing span s marked t with
  | zero => exact .ok ht
  | succ fuel ih =>
    rw [readQuotedType]
    refine ((meets_readQuoted h).mono (fun f hf => hf.2) fun _ h => h).bind fun read hread => ?_
    cases read with
    | none => exact .ok ht
    | some e =>
      exact (readsSoundly_of_quoted (fun _ _ _ h _ ht => ih h ht) (hread e rfl)).read t ht

theorem meets_ofTypeExpr (he : e.CausesOnly S) :
    Meets S (FieldType.CausesOnly S) (FieldType.ofTypeExpr e) :=
  (readsSoundly_of_quoted (fun _ _ _ h _ ht => meets_readQuotedType h ht) he).read _ (.unknown _)

end Annotations

/-- The annotation and the value of a field cause only expected faults. -/
structure PropertyDecl.CausesOnly (S : Fault → Prop) (p : PropertyDecl) : Prop where
  typeExpr : p.typeExpr.CausesOnly S
  value : ∀ v ∈ p.value, ∀ f ∈ v.declarationFaults, S f

/-- The type of a field is read unless its annotation or its value causes a fault. -/
theorem PropertyDecl.CausesOnly.fieldType {p : PropertyDecl} (h : p.CausesOnly S) :
    Meets S (FieldType.CausesOnly S) p.fieldType := by
  refine (meets_ofTypeExpr h.typeExpr).bind fun t ht => ?_
  have hoptional : Meets S (FieldType.CausesOnly S)
      (.ok (t.mapFacts ({ · with optional := true }))) :=
    .ok (ht.mapFacts fun facts h => ⟨h.minimum, h.maximum, h.minLength⟩)
  cases hv : p.value with
  | none => exact .ok ht
  | some v =>
    have hfaults := h.value v hv
    by_cases hellipsis : FieldFacts.isEllipsis v
    · simp only [if_pos hellipsis]
      exact .ok ht
    · simp only [if_neg hellipsis]
      obtain ⟨span, form⟩ := v
      cases form with
      | call func args keywords =>
        by_cases hcall : FieldFacts.isFieldCall func.terminalName?
        · rw [Expr.declarationFaults, if_pos hcall] at hfaults
          simp only [if_pos hcall]
          exact ht.learn fun facts h => h.declareField (forall_keyword_of_boundFaults hfaults)
        · simp only [if_neg hcall]
          exact hoptional
      | _ => exact hoptional

end RouteLens
