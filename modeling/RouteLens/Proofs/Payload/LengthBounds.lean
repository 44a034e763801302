import Mathlib.Data.List.Induction
import Mathlib.Data.List.Rotate
import RouteLens.Proofs.Payload.WrappedAnnotations

/-!
# Lengths in metadata

Metadata bounds a length by keyword arguments, and by markers that take their bounds by position.  A
bound by keyword narrows what is known: of two minimums the greater one is kept, of two maximums the
smaller one.  A bound by position puts aside what stands before it.  So the tightest bound that is
still in force is kept at each end; and if no bound by position stands behind another one of its
end, that is the tightest one of all, in whatever order they are given (`annotated_lengths`).
-/

namespace RouteLens

section

variable {edition : Nat} [CharacterNames edition]

/-- The two ends of a range of lengths. -/
inductive LengthEnd where
  | least
  | most
  deriving DecidableEq

/-- An argument that bounds a length. -/
structure LengthArg where
  side : LengthEnd
  value : Expr
  byPosition : Bool

namespace LengthEnd

/-- The bound that is known at an end. -/
def kept : LengthEnd → FieldFacts → Option Int
  | .least, t => t.minLength
  | .most, t => t.maxLength

/-- The end that a keyword bounds. -/
def ofKeyword? : String → Option LengthEnd
  | "min_length" | "min_items" => some .least
  | "max_length" | "max_items" => some .most
  | _ => none

/-- The tighter of two bounds. -/
def tighter : LengthEnd → Int → Int → Int
  | .least => max
  | .most => min

/-- The tightest of some bounds: the greatest minimum, the least maximum. -/
def IsTightest : LengthEnd → Set Int → Int → Prop
  | .least => IsGreatest
  | .most => IsLeast

/-- What is kept of some bounds is the tightest one, and nothing if there is none. -/
inductive Keeps (side : LengthEnd) (bounds : Set Int) : Option Int → Prop
  | none (h : bounds = ∅) : Keeps side bounds none
  | some {n : Int} (h : side.IsTightest bounds n) : Keeps side bounds (some n)

end LengthEnd

namespace LengthArg

/-- The bound that an argument gives. -/
def bound (a : LengthArg) : Int :=
  match a.value.literal? with
  | some (.int n) => n
  | _ => 0

/-- An argument that is a natural number, written out. -/
def IsNatural (a : LengthArg) : Prop :=
  a.value.literal? = some (.int a.bound) ∧ 0 ≤ a.bound

end LengthArg

/-- The argument for a length that a keyword argument is. -/
def Keyword.length? (k : Keyword) : Option LengthArg :=
  (k.name.bind LengthEnd.ofKeyword?).map fun side => ⟨side, k.value, false⟩

/-- The arguments for lengths of a metadata entry that is a call, given its name. -/
def markerLengths (name : String) (args : List Expr) (keywords : List Keyword) : List LengthArg :=
  match name, args with
  | "MinLen", a :: _ => [⟨.least, a, true⟩]
  | "Len", a :: rest => ⟨.least, a, true⟩ :: rest.head?.toList.map (⟨.most, ·, true⟩)
  | "MaxLen", a :: _ => [⟨.most, a, true⟩]
  | name, _ :: _ =>
    if (FieldFacts.boundKeyword? name).isSome then [] else keywords.filterMap Keyword.length?
  | _, [] => keywords.filterMap Keyword.length?

/-- The arguments for lengths of a metadata entry. -/
def Expr.lengths : Expr → List LengthArg
  | .node _ (.call func args keywords) => markerLengths (func.terminalName?.getD "") args keywords
  | _ => []

/-! ## Bounds in force -/

namespace LengthEnd

variable {side : LengthEnd} {start : Option Int} {as : List LengthArg} {a : LengthArg} {n : Int}
  {bounds : Set Int} {known : Option Int}

/-- A bound that is known at the start or given by an argument. -/
def Declared (side : LengthEnd) (start : Option Int) (as : List LengthArg) (n : Int) : Prop :=
  start = some n ∨ ∃ a ∈ as, a.side = side ∧ a.bound = n

/-- A bound that no bound by position stands behind. -/
def InForce (side : LengthEnd) (start : Option Int) (as : List LengthArg) (n : Int) : Prop :=
  (start = some n ∧ ∀ a ∈ as, a.side = side → a.byPosition = false) ∨
    ∃ before a after, as = before ++ a :: after ∧ a.side = side ∧ a.bound = n ∧
      ∀ b ∈ after, b.side = side → b.byPosition = false

/-- Every bound by position is the first one of its end. -/
def PutsNothingAside (side : LengthEnd) (start : Option Int) (as : List LengthArg) : Prop :=
  (∀ a ∈ as, a.side = side → a.byPosition = true → start = none) ∧
    as.Pairwise fun a b => a.side = side → b.side = side → b.byPosition = false

instance (side : LengthEnd) (start : Option Int) (as : List LengthArg) :
    Decidable (side.PutsNothingAside start as) :=
  inferInstanceAs (Decidable (_ ∧ _))

/-- What is known at an end after an argument. -/
def update (side : LengthEnd) (known : Option Int) (a : LengthArg) : Option Int :=
  if a.side = side then
    if a.byPosition then some a.bound else some (known.elim a.bound (side.tighter a.bound))
  else known

/-- A bound is in force if it comes last, or if what comes last is about the other end or given by
keyword. -/
theorem inForce_append :
    side.InForce start (as ++ [a]) n ↔ (a.side = side ∧ a.bound = n) ∨
      ((a.side = side → a.byPosition = false) ∧ side.InForce start as n) := by
  constructor
  · rintro (⟨hstart, hall⟩ | ⟨before, b, after, hsplit, hside, hbound, hafter⟩)
    · exact .inr ⟨hall a (by simp), .inl ⟨hstart, fun b hb => hall b (by simp [hb])⟩⟩
    · -- The bound is the last one, or stands before it.
      rcases List.eq_nil_or_concat after with rfl | ⟨after, c, rfl⟩
      · obtain ⟨-, hlast⟩ := List.append_inj' hsplit rfl
        obtain rfl := List.singleton_inj.1 hlast
        exact .inl ⟨hside, hbound⟩
      · have hsplit : as ++ [a] = (before ++ b :: after) ++ [c] := by simpa using hsplit
        obtain ⟨rfl, hlast⟩ := List.append_inj' hsplit rfl
        obtain rfl := List.singleton_inj.1 hlast
        refine .inr ⟨hafter a (by simp), .inr ⟨before, b, after, rfl, hside, hbound, ?_⟩⟩
        exact fun d hd => hafter d (by simp [hd])
  · rintro (⟨hside, hbound⟩ | ⟨hlast, hforce⟩)
    · exact .inr ⟨as, a, [], rfl, hside, hbound, by simp⟩
    · have hlast : ∀ b ∈ [a], b.side = side → b.byPosition = false := by simpa using hlast
      rcases hforce with ⟨hstart, hall⟩ | ⟨before, b, after, rfl, hside, hbound, hafter⟩
      · exact .inl ⟨hstart, List.forall_mem_append.2 ⟨hall, hlast⟩⟩
      · exact .inr ⟨before, b, after ++ [a], by simp, hside, hbound,
          List.forall_mem_append.2 ⟨hafter, hlast⟩⟩

theorem IsTightest.unique {m : Int} (hm : side.IsTightest bounds m)
    (hn : side.IsTightest bounds n) : m = n := by
  cases side with
  | least => exact IsGreatest.unique hm hn
  | most => exact IsLeast.unique hm hn

theorem IsTightest.mem (h : side.IsTightest bounds n) : n ∈ bounds := by
  cases side with
  | least => exact h.1
  | most => exact h.1

theorem isTightest_singleton : side.IsTightest {n} n := by
  cases side with
  | least => exact isGreatest_singleton
  | most => exact isLeast_singleton

theorem IsTightest.insert (h : side.IsTightest bounds n) (m : Int) :
    side.IsTightest (insert m bounds) (side.tighter m n) := by
  cases side with
  | least => exact IsGreatest.insert m h
  | most => exact IsLeast.insert m h

theorem Keeps.unique {known' : Option Int} (h : side.Keeps bounds known)
    (h' : side.Keeps bounds known') : known = known' := by
  cases h with
  | none hnone =>
    subst hnone
    cases h' with
    | none => rfl
    | some hn => exact hn.mem.elim
  | some hm =>
    cases h' with
    | none hnone =>
      subst hnone
      exact hm.mem.elim
    | some hn => rw [hm.unique hn]

/-- What is known after an argument is the tightest of the bounds that are in force then. -/
theorem keeps_update (h : side.Keeps {n | side.InForce start as n} known) (a : LengthArg) :
    side.Keeps {n | side.InForce start (as ++ [a]) n} (side.update known a) := by
  simp only [inForce_append]
  by_cases hside : a.side = side
  · cases hposition : a.byPosition with
    | true =>
      -- Nothing before a bound by position is in force.
      have hset : {n | (a.side = side ∧ a.bound = n) ∨
          ((a.side = side → true = false) ∧ side.InForce start as n)} = {a.bound} := by
        ext n
        simp [hside, eq_comm]
      rw [hset, update, if_pos hside, if_pos hposition]
      exact .some isTightest_singleton
    | false =>
      have hset : {n | (a.side = side ∧ a.bound = n) ∨
          ((a.side = side → false = false) ∧ side.InForce start as n)} =
          insert a.bound {n | side.InForce start as n} := by
        ext n
        simp [hside, eq_comm]
      rw [hset, update, if_pos hside, if_neg (by simp [hposition])]
      cases h with
      | none hnone =>
        rw [hnone, insert_empty_eq]
        exact .some isTightest_singleton
      | some hn => exact .some (hn.insert a.bound)
  · have hset : {n | (a.side = side ∧ a.bound = n) ∨
        ((a.side = side → a.byPosition = false) ∧ side.InForce start as n)} =
        {n | side.InForce start as n} := by
      ext n
      simp [hside]
    rw [hset, update, if_neg hside]
    exact h

/-- After some arguments the tightest of the bounds in force is known. -/
theorem keeps_foldl (side : LengthEnd) (start : Option Int) (as : List LengthArg) :
    side.Keeps {n | side.InForce start as n} (as.foldl side.update start) := by
  induction as using List.reverseRecOn with
  | nil =>
    have hset : {n | side.InForce start [] n} = {n | start = some n} := by
      ext n
      simp [InForce]
    rw [hset, List.foldl_nil]
    cases start with
    | none => exact .none (by simp)
    | some m =>
      have hsingle : {n | some m = some n} = {m} := by
        ext n
        simp [eq_comm]
      rw [hsingle]
      exact .some isTightest_singleton
  | append_singleton as a ih =>
    rw [List.foldl_append, List.foldl_cons, List.foldl_nil]
    exact keeps_update ih a

theorem inForce_iff_declared (h : side.PutsNothingAside start as) :
    side.InForce start as n ↔ side.Declared start as n := by
  constructor
  · rintro (⟨hstart, -⟩ | ⟨before, a, after, rfl, hside, hbound, -⟩)
    · exact .inl hstart
    · exact .inr ⟨a, by simp, hside, hbound⟩
  · rintro (hstart | ⟨a, ha, hside, hbound⟩)
    · refine .inl ⟨hstart, fun a ha hside => ?_⟩
      by_contra hposition
      have hnone := h.1 a ha hside (by simpa using hposition)
      simp [hstart] at hnone
    · obtain ⟨before, after, rfl⟩ := List.append_of_mem ha
      have hbehind := (List.pairwise_cons.1 (List.pairwise_append.1 h.2).2.1).1
      exact .inr ⟨before, a, after, rfl, hside, hbound, fun b hb => hbehind b hb hside⟩

theorem declared_perm {as' : List LengthArg} (h : as.Perm as') :
    side.Declared start as n ↔ side.Declared start as' n := by
  simp only [Declared, h.mem_iff]

end LengthEnd

/-! ## Reading metadata -/

namespace FieldFacts

variable {t : FieldFacts} {as bs : List LengthArg} {r : Except Fault FieldFacts}

/-- A result is there, and at each end knows what the arguments make of what was known. -/
def Tracks (t : FieldFacts) (as : List LengthArg) (r : Except Fault FieldFacts) : Prop :=
  ∃ u, r = .ok u ∧ ∀ side : LengthEnd, side.kept u = as.foldl side.update (side.kept t)

theorem Tracks.of_kept {u : FieldFacts} (h : ∀ side : LengthEnd, side.kept u = side.kept t) :
    Tracks t [] (.ok u) :=
  ⟨u, rfl, h⟩

theorem Tracks.bind {f : FieldFacts → Except Fault FieldFacts} (hr : Tracks t as r)
    (hf : ∀ u, Tracks u bs (f u)) : Tracks t (as ++ bs) (r >>= f) := by
  obtain ⟨u, rfl, hu⟩ := hr
  obtain ⟨u', hu', hkept⟩ := hf u
  refine ⟨u', hu', fun side => ?_⟩
  rw [hkept, hu, List.foldl_append]

theorem Tracks.foldlM {α : Type} {f : FieldFacts → α → Except Fault FieldFacts}
    {g : α → List LengthArg} {xs : List α} (h : ∀ x ∈ xs, ∀ u, Tracks u (g x) (f u x))
    (t : FieldFacts) : Tracks t (xs.flatMap g) (xs.foldlM f t) := by
  induction xs generalizing t with
  | nil => exact .of_kept fun _ => rfl
  | cons x xs ih =>
    rw [List.flatMap_cons, List.foldlM_cons]
    exact (h x (by simp) t).bind fun u => ih (fun y hy => h y (by simp [hy])) u

theorem lengthOf?_natural {a : LengthArg} (ha : a.IsNatural) :
    lengthOf? a.value.literal? = .ok (some a.bound) := by
  rw [ha.1]
  rfl

theorem kept_tighten (t : FieldFacts) (side : Side) (v : Value) (e : Bool) (en : LengthEnd) :
    en.kept (t.tighten side v e) = en.kept t :=
  apply_tighten (by intro u q x side; cases side <;> cases en <;> rfl) t side v e

theorem kept_declare (t : FieldFacts) (k : Keyword) (side : LengthEnd) :
    side.kept (t.declare k) = side.kept t := by
  unfold declare
  split
  · split <;> cases side <;> rfl
  · split <;> cases side <;> rfl
  · split <;> cases side <;> rfl
  · rfl

theorem kept_declareDefault (t : FieldFacts) (args : List Expr) (side : LengthEnd) :
    side.kept (t.declareDefault args) = side.kept t := by
  unfold declareDefault
  split
  · split <;> cases side <;> rfl
  · rfl

theorem kept_foldl_declare (ks : List Keyword) (t : FieldFacts) (side : LengthEnd) :
    side.kept (ks.foldl declare t) = side.kept t := by
  induction ks generalizing t with
  | nil => rfl
  | cons k ks ih => rw [List.foldl_cons, ih, kept_declare]

/-- A keyword that bounds no length leaves the lengths alone. -/
theorem tracks_constrain_other {name : String} (h : LengthEnd.ofKeyword? name = none)
    (t : FieldFacts) (value : Expr) : Tracks t [] (t.constrain name value) := by
  unfold constrain
  cases value.literal? with
  | none => exact .of_kept fun _ => rfl
  | some v =>
    simp only
    split
    case h_5 => exact .of_kept (kept_tighten t .lower v false)
    case h_6 => exact .of_kept (kept_tighten t .lower v true)
    case h_7 => exact .of_kept (kept_tighten t .upper v false)
    case h_8 => exact .of_kept (kept_tighten t .upper v true)
    case h_9 => exact .of_kept fun _ => rfl
    all_goals cases h

/-- A minimum by keyword is the greater one of two.  The least length starts at zero, below which no
natural number is. -/
theorem tracks_minLength {a : LengthArg} (hside : a.side = .least) (hkeyword : a.byPosition = false)
    (hbound : 0 ≤ a.bound) (t : FieldFacts) :
    Tracks t [a] (.ok { t with minLength := some (max (t.minLength.getD 0) a.bound) }) := by
  refine ⟨_, rfl, fun side => ?_⟩
  cases side with
  | least =>
    cases hmin : t.minLength with
    | none => simp [LengthEnd.kept, LengthEnd.update, hside, hkeyword, hmin, hbound]
    | some m =>
      simp [LengthEnd.kept, LengthEnd.update, LengthEnd.tighter, hside, hkeyword, hmin, max_comm]
  | most => simp [LengthEnd.kept, LengthEnd.update, hside]

/-- A maximum by keyword is the smaller one of two. -/
theorem tracks_maxLength {a : LengthArg} (hside : a.side = .most) (hkeyword : a.byPosition = false)
    (t : FieldFacts) :
    Tracks t [a] (.ok { t with maxLength := some (t.maxLength.elim a.bound (min · a.bound)) }) := by
  refine ⟨_, rfl, fun side => ?_⟩
  cases side with
  | least => simp [LengthEnd.kept, LengthEnd.update, hside]
  | most =>
    cases hmax : t.maxLength with
    | none => simp [LengthEnd.kept, LengthEnd.update, hside, hkeyword, hmax]
    | some m =>
      simp [LengthEnd.kept, LengthEnd.update, LengthEnd.tighter, hside, hkeyword, hmax, min_comm]

theorem tracks_constrain {name : String} {a : LengthArg}
    (hside : LengthEnd.ofKeyword? name = some a.side) (hkeyword : a.byPosition = false)
    (ha : a.IsNatural) (t : FieldFacts) : Tracks t [a] (t.constrain name a.value) := by
  have hlength := lengthOf?_natural ha
  obtain ⟨hliteral, hbound⟩ := ha
  rw [hliteral] at hlength
  unfold LengthEnd.ofKeyword? at hside
  split at hside
  case h_5 => cases hside
  all_goals replace hside := (Option.some.inj hside).symm
  case h_1 => simpa [constrain, hliteral, hlength] using tracks_minLength hside hkeyword hbound t
  case h_2 => simpa [constrain, hliteral, hlength] using tracks_minLength hside hkeyword hbound t
  case h_3 => simpa [constrain, hliteral, hlength] using tracks_maxLength hside hkeyword t
  case h_4 => simpa [constrain, hliteral, hlength] using tracks_maxLength hside hkeyword t

/-- A keyword adds the bound that it gives. -/
theorem tracks_keyword {k : Keyword} (hk : ∀ a ∈ k.length?, a.IsNatural) (t : FieldFacts) :
    Tracks t k.length?.toList (k.name.elim (.ok t) (t.constrain · k.value)) := by
  cases hname : k.name with
  | none =>
    have hnone : k.length? = none := by simp [Keyword.length?, hname]
    rw [hnone]
    exact .of_kept fun _ => rfl
  | some name =>
    cases hside : LengthEnd.ofKeyword? name with
    | none =>
      have hnone : k.length? = none := by simp [Keyword.length?, hname, hside]
      rw [hnone]
      exact tracks_constrain_other hside t k.value
    | some side =>
      have hsome : k.length? = some ⟨side, k.value, false⟩ := by
        simp [Keyword.length?, hname, hside]
      rw [hsome]
      exact @tracks_constrain name ⟨side, k.value, false⟩ hside rfl (hk _ hsome) t

theorem tracks_constrainAll {ks : List Keyword}
    (hks : ∀ a ∈ ks.filterMap Keyword.length?, a.IsNatural) (t : FieldFacts) :
    Tracks t (ks.filterMap Keyword.length?) (t.constrainAll ks) := by
  have hflat : ks.filterMap Keyword.length? = ks.flatMap (·.length?.toList) := by
    rw [List.filterMap_eq_flatMap_toList]
  rw [hflat, constrainAll]
  refine Tracks.foldlM (fun k hk u => ?_) t
  have h := tracks_keyword (fun a ha => hks a (List.mem_filterMap.2 ⟨k, hk, ha⟩)) u
  cases hname : k.name <;> simpa [hname] using h

theorem tracks_declareField {ks : List Keyword}
    (hks : ∀ a ∈ ks.filterMap Keyword.length?, a.IsNatural) (args : List Expr) (t : FieldFacts) :
    Tracks t (ks.filterMap Keyword.length?) (t.declareField args ks) := by
  obtain ⟨u, hu, hkept⟩ := tracks_constrainAll hks (ks.foldl declare (t.declareDefault args))
  refine ⟨u, hu, fun side => ?_⟩
  rw [hkept, kept_foldl_declare, kept_declareDefault]

/-- A minimum by position takes the place of what was known. -/
theorem tracks_minLength_position {a : Expr} (h : (⟨.least, a, true⟩ : LengthArg).IsNatural)
    (t : FieldFacts) :
    Tracks t [⟨.least, a, true⟩]
      (do return { t with minLength := ← lengthOf? a.literal? }) := by
  rw [lengthOf?_natural h]
  refine ⟨_, rfl, fun side => ?_⟩
  cases side <;> simp [LengthEnd.kept, LengthEnd.update]

theorem tracks_maxLength_position {a : Expr} (h : (⟨.most, a, true⟩ : LengthArg).IsNatural)
    (t : FieldFacts) :
    Tracks t [⟨.most, a, true⟩]
      (do return { t with maxLength := ← lengthOf? a.literal? }) := by
  rw [lengthOf?_natural h]
  refine ⟨_, rfl, fun side => ?_⟩
  cases side <;> simp [LengthEnd.kept, LengthEnd.update]

/-- The keyword of a bound marker bounds no length. -/
theorem ofKeyword?_of_boundKeyword? {name keyword : String}
    (h : boundKeyword? name = some keyword) : LengthEnd.ofKeyword? keyword = none := by
  unfold boundKeyword? at h
  split at h <;> cases h <;> rfl

theorem applyMarker_of_boundKeyword? {name keyword : String}
    (h : boundKeyword? name = some keyword) (t : FieldFacts) (a : Expr) (args : List Expr)
    (ks : List Keyword) : t.applyMarker name (a :: args) ks = t.constrain keyword a := by
  unfold boundKeyword? at h
  split at h <;> cases h <;> rfl

/-- A marker adds the bounds of its arguments and keywords. -/
theorem tracks_applyMarker {name : String} {args : List Expr} {ks : List Keyword}
    (h : ∀ a ∈ markerLengths name args ks, a.IsNatural) (t : FieldFacts) :
    Tracks t (markerLengths name args ks) (t.applyMarker name args ks) := by
  unfold markerLengths at h ⊢
  split at h
  case h_1 => exact tracks_minLength_position (h _ (by simp)) t
  case h_2 a rest =>
    have hleast := tracks_minLength_position (h ⟨.least, a, true⟩ (by simp)) t
    cases rest with
    | nil => simpa [applyMarker] using hleast
    | cons b rest =>
      have hboth := hleast.bind (tracks_maxLength_position (h ⟨.most, b, true⟩ (by simp)))
      simpa [applyMarker] using hboth
  case h_3 => exact tracks_maxLength_position (h _ (by simp)) t
  case h_4 a args hmin hlen hmax =>
    cases hbound : boundKeyword? name with
    | some keyword =>
      rw [applyMarker_of_boundKeyword? hbound]
      exact tracks_constrain_other (ofKeyword?_of_boundKeyword? hbound) t a
    | none =>
      have hname : name ∉ positionalMarkers := by
        intro hmem
        simp only [positionalMarkers, List.mem_cons, List.not_mem_nil, or_false] at hmem
        rcases hmem with rfl | rfl | rfl | rfl | rfl | rfl | rfl
        · exact hmin rfl
        · exact hlen rfl
        · exact hmax rfl
        all_goals cases hbound
      rw [applyMarker_eq (.inr hname)]
      simp only [hbound, Option.isSome_none, Bool.false_eq_true, if_false] at h ⊢
      exact tracks_constrainAll h t
  case h_5 =>
    rw [applyMarker_eq (.inl rfl)]
    exact tracks_constrainAll h t

theorem markerLengths_of_isFieldCall {name : Option String} (h : isFieldCall name = true)
    (args : List Expr) (ks : List Keyword) :
    markerLengths (name.getD "") args ks = ks.filterMap Keyword.length? := by
  simp only [isFieldCall, Bool.or_eq_true, beq_iff_eq] at h
  rcases h with rfl | rfl <;> cases args <;> rfl

/-- A metadata entry adds its bounds, one after the other. -/
theorem tracks_applyMetadata {m : Expr} (hm : ∀ a ∈ m.lengths, a.IsNatural) (t : FieldFacts) :
    Tracks t m.lengths (t.applyMetadata m) := by
  obtain ⟨span, form⟩ := m
  cases form with
  | call func args ks =>
    have hlengths : Expr.lengths (.node span (.call func args ks)) =
        markerLengths (func.terminalName?.getD "") args ks := rfl
    rw [hlengths] at hm ⊢
    by_cases hfield : isFieldCall func.terminalName? = true
    · rw [markerLengths_of_isFieldCall hfield] at hm ⊢
      simpa [applyMetadata, hfield] using tracks_declareField hm args t
    · simpa [applyMetadata, hfield] using tracks_applyMarker hm t
  | _ => exact .of_kept fun _ => rfl

/-- Metadata adds the bounds of its entries. -/
theorem tracks_metadata {ms : List Expr} (hms : ∀ m ∈ ms, ∀ a ∈ m.lengths, a.IsNatural)
    (t : FieldFacts) : Tracks t (ms.flatMap Expr.lengths) (ms.foldlM applyMetadata t) :=
  Tracks.foldlM (fun m hm => tracks_applyMetadata (hms m hm)) t

end FieldFacts

/-! ## Annotations with metadata -/

namespace Expr

variable {base index e : Expr} {ms : List Expr} {t u : FieldType}

/-- What is kept of an annotation with metadata is the tightest of the bounds in force. -/
theorem exists_addType_metadata (span : Span) (hbase : base.typeName = .ok (some "Annotated"))
    (hargs : typeArguments index = e :: ms) (hms : ∀ m ∈ ms, ∀ a ∈ m.lengths, a.IsNatural)
    (hu : e.addType t = .ok u) :
    ∃ u', Expr.addType (.node span (.subscript base index)) t = .ok u' ∧
      ∀ side : LengthEnd,
        side.Keeps {n | side.InForce (side.kept u.facts) (ms.flatMap lengths) n}
          (side.kept u'.facts) := by
  obtain ⟨facts, element, fixed⟩ := u
  obtain ⟨facts', hfacts', hkept⟩ := FieldFacts.tracks_metadata hms facts
  refine ⟨.mk facts' element fixed, ?_, fun side => ?_⟩
  · rw [addType_subscript hbase hargs]
    simp [Wrapper.ofName, Wrapper.read, hu, FieldType.learn, hfacts']
  · have hkeeps := LengthEnd.keeps_foldl side (side.kept facts) (ms.flatMap lengths)
    rw [← hkept side] at hkeeps
    exact hkeeps

/-- At each end of the lengths, an annotation with metadata keeps the tightest of the bounds that no
bound by position stands behind, those of the annotation itself included.  If every bound by
position is the first one of its end, that is the tightest of all; and each order of the metadata in
which this is so keeps the same. -/
theorem annotated_lengths (span : Span) (hbase : base.typeName = .ok (some "Annotated"))
    (hargs : typeArguments index = e :: ms) (hms : ∀ m ∈ ms, ∀ a ∈ m.lengths, a.IsNatural)
    (hu : e.addType t = .ok u) :
    ∃ u', Expr.addType (.node span (.subscript base index)) t = .ok u' ∧
      ∀ side : LengthEnd,
        side.Keeps {n | side.InForce (side.kept u.facts) (ms.flatMap lengths) n}
          (side.kept u'.facts) ∧
        (side.PutsNothingAside (side.kept u.facts) (ms.flatMap lengths) →
          side.Keeps {n | side.Declared (side.kept u.facts) (ms.flatMap lengths) n}
            (side.kept u'.facts) ∧
          ∀ ms' index', ms'.Perm ms → typeArguments index' = e :: ms' →
            side.PutsNothingAside (side.kept u.facts) (ms'.flatMap lengths) →
            ∃ u'', Expr.addType (.node span (.subscript base index')) t = .ok u'' ∧
              side.kept u''.facts = side.kept u'.facts) := by
  obtain ⟨u', hu', hkeeps⟩ := exists_addType_metadata span hbase hargs hms hu
  refine ⟨u', hu', fun side => ⟨hkeeps side, fun hfirst => ?_⟩⟩
  have hall := hkeeps side
  simp only [LengthEnd.inForce_iff_declared hfirst] at hall
  refine ⟨hall, fun ms' index' hperm hargs' hfirst' => ?_⟩
  have hms' : ∀ m ∈ ms', ∀ a ∈ m.lengths, a.IsNatural := fun m hm => hms m (hperm.mem_iff.1 hm)
  obtain ⟨u'', hu'', hkeeps'⟩ := exists_addType_metadata span hbase hargs' hms' hu
  have hall' := hkeeps' side
  simp only [LengthEnd.inForce_iff_declared hfirst',
    LengthEnd.declared_perm (hperm.flatMap_right lengths)] at hall'
  exact ⟨u'', hu'', hall'.unique hall⟩

/-- A call with one argument, a number. -/
def numberCall (name : String) (n : Nat) : Expr :=
  .node default (.call (named name) [.node default (.constant (.int n))] [])

/-- The annotation of a text with metadata. -/
def annotatedText (ms : List Expr) : Expr :=
  .node default (.subscript (named "Annotated") (.node default (.tuple (named "str" :: ms))))

/-- Bounds of a text: `MinLen(3)`, `Field(min_length=5)`, `MaxLen(9)` and `Size(max_items=7)`. -/
def textBounds : List Expr :=
  [numberCall "MinLen" 3, keywordCall "Field" "min_length" (.int 5), numberCall "MaxLen" 9,
    keywordCall "Size" "max_items" (.int 7)]

theorem isNatural_textBounds : ∀ m ∈ textBounds, ∀ a ∈ m.lengths, a.IsNatural := by
  intro m hm
  simp only [textBounds, List.mem_cons, List.not_mem_nil, or_false] at hm
  rcases hm with rfl | rfl | rfl | rfl <;> exact List.forall_mem_singleton.2 ⟨rfl, by decide⟩

end Expr

end

namespace Expr

/-- Each bound by position comes first of its end in both orders: at least five, at most seven. -/
theorem annotated_lengths_reordered :
    (∀ m ∈ textBounds, ∀ a ∈ m.lengths, a.IsNatural) ∧
      (∀ side : LengthEnd, side.PutsNothingAside none (textBounds.flatMap lengths) ∧
        side.PutsNothingAside none ((textBounds.rotate 2).flatMap lengths)) ∧
      ∃ u, (annotatedText textBounds).addType (.unknown "") = .ok u ∧
        u.facts.minLength = some 5 ∧ u.facts.maxLength = some 7 ∧
        ∀ side : LengthEnd, ∃ u',
          (annotatedText (textBounds.rotate 2)).addType (.unknown "") = .ok u' ∧
            side.kept u'.facts = side.kept u.facts := by
  have hfirst : ∀ side : LengthEnd, side.PutsNothingAside none (textBounds.flatMap lengths) ∧
      side.PutsNothingAside none ((textBounds.rotate 2).flatMap lengths) := by
    intro side
    cases side <;> decide
  have hchecked : ((annotatedText textBounds).addType (.unknown "")).toOption.any (fun u =>
      decide (u.facts.minLength = some 5) && decide (u.facts.maxLength = some 7)) = true := by
    decide +kernel
  obtain ⟨v, hv, hlengths⟩ := exists_ok_of_any hchecked
  simp only [Bool.and_eq_true, decide_eq_true_eq] at hlengths
  have hstr : (named "str").addType (.unknown "") =
      .ok ((FieldType.unknown "").mapFacts ({ · with kind := some .str })) := rfl
  obtain ⟨u, hu, hends⟩ := @annotated_lengths _ _ (named "Annotated")
    (.node default (.tuple (named "str" :: textBounds))) _ _ _ _ default rfl rfl
    isNatural_textBounds hstr
  obtain rfl : u = v := Except.ok.inj (hu.symm.trans hv)
  refine ⟨isNatural_textBounds, hfirst, u, hu, hlengths.1, hlengths.2, fun side => ?_⟩
  have hstart : side.kept (((FieldType.unknown "").mapFacts
      ({ · with kind := some .str })).facts) = none := by cases side <;> rfl
  have hside := (hends side).2
  rw [hstart] at hside
  exact (hside (hfirst side).1).2 _ _ (textBounds.rotate_perm 2) rfl (hfirst side).2

/-- A minimum by position behind a greater one by keyword: of `Field(min_length=5)` and `MinLen(3)`
the smaller one is kept in this order, and the greater one in the other. -/
theorem annotated_lengths_put_aside :
    LengthEnd.least.Declared none ([keywordCall "Field" "min_length" (.int 5),
        numberCall "MinLen" 3].flatMap lengths) 5 ∧
      ∃ u u', FieldType.ofTypeExpr (annotatedText [keywordCall "Field" "min_length" (.int 5),
          numberCall "MinLen" 3]) = .ok u ∧
        FieldType.ofTypeExpr (annotatedText [numberCall "MinLen" 3,
          keywordCall "Field" "min_length" (.int 5)]) = .ok u' ∧
        u.facts.minLength = some 3 ∧ u'.facts.minLength = some 5 := by
  have hlast : ((FieldType.ofTypeExpr (annotatedText [keywordCall "Field" "min_length" (.int 5),
      numberCall "MinLen" 3])).toOption.any
        fun u => decide (u.facts.minLength = some 3)) = true := by
    decide +kernel
  have hfirst : ((FieldType.ofTypeExpr (annotatedText [numberCall "MinLen" 3,
      keywordCall "Field" "min_length" (.int 5)])).toOption.any
        fun u => decide (u.facts.minLength = some 5)) = true := by
    decide +kernel
  obtain ⟨u, hu, hthree⟩ := exists_ok_of_any hlast
  obtain ⟨u', hu', hfive⟩ := exists_ok_of_any hfirst
  refine ⟨.inr ⟨_, List.mem_cons_self, rfl, rfl⟩, u, u', hu, hu', ?_, ?_⟩
  · exact of_decide_eq_true hthree
  · exact of_decide_eq_true hfive

end Expr

end RouteLens
