import RouteLens.Proofs.Payload.AnnotationCauses
import RouteLens.Proofs.Payload.QuotedAnnotations

/-!
# Two readings of an annotation

The class that an annotation refers to is read twice: by itself (`Expr.typeName`), where handlers
are looked at, and along with all else that the annotation says about a field
(`FieldType.ofTypeExpr`). The two readings look through the same wrappers and choose the same member
of a union, in quoted annotations too.  So a field refers to the class that its annotation names,
unless the name stands for a type of its own, and a class that a field refers to is the one that is
named (`classRef_iff_typeName`).
-/

namespace RouteLens

section

variable {edition : Nat} [CharacterNames edition]

/-! ## Facts that leave the class alone -/

namespace FieldFacts

variable {t : FieldFacts} {ref : Option String}

/-- A step of reading leaves the class that a field refers to. -/
abbrev KeepsRef (ref : Option String) (x : Except Fault FieldFacts) : Prop :=
  Meets (fun _ => True) (fun t => t.classRef = ref) x

@[simp] theorem classRef_tighten (t : FieldFacts) (side : Side) (v : Value) (exclusive : Bool) :
    (t.tighten side v exclusive).classRef = t.classRef :=
  apply_tighten (by intro u q x side; cases side <;> rfl) t side v exclusive

theorem succeeds_lengthOf? (v : Option Value) : Succeeds (fun _ => True) (lengthOf? v) := by
  cases lengthOf? v with
  | ok n => exact succeeds_ok n
  | error f => exact .error trivial

theorem keepsRef_constrain (h : t.classRef = ref) (name : String) (value : Expr) :
    KeepsRef ref (t.constrain name value) := by
  unfold constrain
  cases value.literal? with
  | none => exact .ok h
  | some v =>
    simp only
    split
    -- the two names of each length
    iterate 4
      · refine (succeeds_lengthOf? v).bind fun n _ => ?_
        cases n <;> exact .ok h
    all_goals exact .ok (by simpa [raiseMinimum, lowerMaximum] using h)

theorem keepsRef_constrainAll (h : t.classRef = ref) (keywords : List Keyword) :
    KeepsRef ref (t.constrainAll keywords) := by
  refine meets_foldlM h fun t ht k _ => ?_
  cases k.name with
  | none => exact .ok ht
  | some n => exact keepsRef_constrain ht n k.value

theorem classRef_declare (t : FieldFacts) (k : Keyword) : (t.declare k).classRef = t.classRef := by
  unfold declare
  split
  · split_ifs <;> rfl
  · split_ifs <;> rfl
  · split <;> rfl
  · rfl

theorem keepsRef_declareField (h : t.classRef = ref) (args : List Expr) (keywords : List Keyword) :
    KeepsRef ref (t.declareField args keywords) := by
  refine keepsRef_constrainAll ?_ keywords
  have hdefault : (t.declareDefault args).classRef = ref := by
    cases args with
    | nil => exact h
    | cons a args => by_cases ha : isEllipsis a <;> simp [declareDefault, ha, h]
  generalize t.declareDefault args = t' at hdefault
  induction keywords generalizing t' with
  | nil => exact hdefault
  | cons k ks ih => exact ih _ ((classRef_declare t' k).trans hdefault)

theorem keepsRef_applyMarker (h : t.classRef = ref) (name : String) (args : List Expr)
    (keywords : List Keyword) : KeepsRef ref (t.applyMarker name args keywords) := by
  unfold applyMarker
  split
  · exact (succeeds_lengthOf? _).bind fun n _ => .ok h
  · refine (succeeds_lengthOf? _).bind fun n _ => ?_
    split
    · exact (succeeds_lengthOf? _).bind fun n _ => .ok h
    · exact .ok h
  · exact (succeeds_lengthOf? _).bind fun n _ => .ok h
  · split
    · exact keepsRef_constrain h _ _
    · exact keepsRef_constrainAll h keywords
  · exact keepsRef_constrainAll h keywords

/-- A metadata entry says nothing about the class. -/
theorem keepsRef_applyMetadata (h : t.classRef = ref) (e : Expr) :
    KeepsRef ref (t.applyMetadata e) := by
  unfold applyMetadata
  split
  · simp only
    split_ifs
    · exact keepsRef_declareField h _ _
    · exact keepsRef_applyMarker h _ _ _
  · exact .ok h

theorem keepsRef_foldlM (h : t.classRef = ref) (metas : List Expr) :
    KeepsRef ref (metas.foldlM applyMetadata t) :=
  meets_foldlM h fun _ ht e _ => keepsRef_applyMetadata ht e

/-! ## Names of types -/

/-- Whether a name stands for a type of its own: for a format, a scalar, an array, a tuple, a
mapping or a choice. -/
def isTypeOfItsOwn (name : String) : Bool :=
  (TextFormat.ofTypeName? name).isSome || (scalarTypes.lookup name).isSome ||
    arrayTypes.contains name || mappingTypes.contains name || tupleTypes.contains name ||
    name == "Literal"

theorem applyTypeName_eq {name : String} (h : isTypeOfItsOwn name = false) (t : FieldFacts) :
    t.applyTypeName name = { t with classRef := some name } := by
  simp only [isTypeOfItsOwn, Bool.or_eq_false_iff] at h
  obtain ⟨⟨⟨⟨⟨hformat, hscalar⟩, harray⟩, hmapping⟩, htuple⟩, -⟩ := h
  rw [Option.isSome_eq_false_iff, Option.isNone_iff_eq_none] at hformat hscalar
  simp only [applyTypeName, hformat, hscalar, harray, hmapping, htuple, Bool.or_self,
    Bool.false_eq_true, if_false]

/-- The name of a type sets the class to this name, or leaves it alone. -/
theorem classRef_applyTypeName (t : FieldFacts) (name : String) :
    (t.applyTypeName name).classRef = t.classRef ∨
      (t.applyTypeName name).classRef = some name := by
  unfold applyTypeName
  split
  · exact .inl rfl
  · left
    simp only
    split <;> split <;> simp [raiseMinimum, lowerMaximum]
  · split_ifs
    · exact .inl rfl
    · exact .inl rfl
    · exact .inr rfl

end FieldFacts

/-! ## Subscripted names -/

/-- A name that is looked through neither as a wrapper nor as a union. -/
structure IsPlainName (c : String) : Prop where
  not_wrapper : transparentWrappers.contains c = false
  ne_union : c ≠ "Union"

/-- What a name tells that is read in some way where it is subscripted. -/
inductive Wrapper.Stands (c : String) : Wrapper → Prop
  | annotated (h : transparentWrappers.contains c = true) : Stands c .annotated
  | optional (h : transparentWrappers.contains c = true) : Stands c .optional
  | required (h : transparentWrappers.contains c = true) : Stands c .required
  | transparent (h : transparentWrappers.contains c = true) : Stands c .transparent
  | classVar (h : c = "ClassVar") : Stands c .classVar
  | union (h : c = "Union") : Stands c .union
  | literal (h : IsPlainName c) (hown : FieldFacts.isTypeOfItsOwn c = true) : Stands c .literal
  | array (h : IsPlainName c) (hown : FieldFacts.isTypeOfItsOwn c = true) : Stands c .array
  | tuple (h : IsPlainName c) (hown : FieldFacts.isTypeOfItsOwn c = true) : Stands c .tuple
  | mapping (h : IsPlainName c) (hown : FieldFacts.isTypeOfItsOwn c = true) : Stands c .mapping
  | unnamed (h : IsPlainName c) (hempty : c = "") : Stands c .unnamed
  | named (h : IsPlainName c) : Stands c (.named c)

/-- A name is of the kind that its wrapper asks for. -/
theorem Wrapper.stands_ofName (c : String) : Wrapper.Stands c (.ofName (some c)) := by
  unfold Wrapper.ofName
  simp only
  split
  · exact .annotated (by decide)
  · exact .optional (by decide)
  · exact .optional (by decide)
  · exact .required (by decide)
  · exact .classVar rfl
  · exact .transparent (by decide)
  · exact .transparent (by decide)
  · exact .union rfl
  · exact .literal ⟨by decide, by decide⟩ (by decide)
  · have hplain : IsPlainName c := ⟨by simp_all [transparentWrappers], by assumption⟩
    split_ifs with harray htuple hmapping hempty
    · exact .array hplain (by simp [FieldFacts.isTypeOfItsOwn, List.contains_iff_mem.1 harray])
    · exact .tuple hplain (by simp [FieldFacts.isTypeOfItsOwn, List.contains_iff_mem.1 htuple])
    · exact .mapping hplain (by simp [FieldFacts.isTypeOfItsOwn, List.contains_iff_mem.1 hmapping])
    · exact .unnamed hplain (String.isEmpty_iff.1 hempty)
    · exact .named hplain

/-- The arguments of an annotation that are read as metadata. -/
def Expr.metadata : Expr → List Expr
  | .node _ (.subscript base index) =>
    byWrapper (Wrapper.metadata (typeArguments index)) (typeArguments index).tail base
  | _ => []

/-- Whether an annotation is subscripted with nothing. -/
def Expr.hasEmptyIndex : Expr → Bool
  | .node _ (.subscript _ index) => (typeArguments index).isEmpty
  | _ => false

/-- Whether an annotation is that of a class variable. -/
def Expr.isClassVar : Expr → Bool
  | .node _ (.subscript base _) => decide (base.typeName = .ok (some "ClassVar"))
  | _ => false

namespace Recursion

variable {α β : Type} {n : Nat} {e base index first : Expr} {rest : List Expr} {span : Span}
  {c : String}

/-! ## Runs of the two readers -/

theorem bind_eq_some_iff {x : Run α} {k : α → Run β} {v : Except Fault β} :
    (x >>= k) = some v ↔
      (∃ f, x = some (.error f) ∧ v = .error f) ∨ ∃ a, x = some (.ok a) ∧ k a = some v := by
  constructor
  · intro h
    obtain _ | f | a := x
    · cases h
    · exact .inl ⟨f, rfl, (Option.some.inj h).symm⟩
    · exact .inr ⟨a, rfl, h⟩
  · rintro (⟨f, rfl, rfl⟩ | ⟨a, rfl, h⟩)
    · rfl
    · exact h

/-- What the class of an annotation is found to be at some depth is what it is found to be at all
greater ones. -/
theorem typeName_succ {v : Except Fault (Option String)} (h : typeName n e = some v) :
    typeName (n + 1) e = some v := by
  induction n generalizing e v with
  | zero => cases h
  | succ n ih =>
    obtain ⟨span, form⟩ := e
    cases form with
    | constant value =>
      cases value with
      | text s marked =>
        rw [typeName] at h ⊢
        rw [bind_eq_some_iff] at h ⊢
        obtain hfault | ⟨read, hread, h⟩ := h
        · exact .inl hfault
        · refine .inr ⟨read, hread, ?_⟩
          cases read with
          | none => exact h
          | some e => exact ih h
      | _ => exact h
    | subscript value index =>
      rw [typeName] at h ⊢
      rw [bind_eq_some_iff] at h ⊢
      obtain ⟨f, hf, hv⟩ | ⟨name, hname, h⟩ := h
      · exact .inl ⟨f, ih hf, hv⟩
      · refine .inr ⟨name, ih hname, ?_⟩
        cases name with
        | none => exact h
        | some name =>
          simp only at h ⊢
          split_ifs at h ⊢
          · exact ih h
          · cases hfind : (typeArguments index).find? (!·.isNull) with
            | none =>
              rw [hfind] at h
              exact h
            | some e =>
              rw [hfind] at h
              exact ih h
          · exact h
    | binary left op right =>
      cases op with
      | bitOr =>
        rw [typeName] at h ⊢
        split_ifs at h ⊢
        · exact ih h
        · exact ih h
      | _ => exact h
    | _ => exact h

theorem typeName_of_run {v : Except Fault (Option String)} (h : typeName n e = some v) :
    e.typeName = v := by
  obtain ⟨least, hleast⟩ := (ends_typeName e).exists_least
  have hlater (d : Nat) : typeName (n + d) e = some v := by
    induction d with
    | zero => exact h
    | succ d ih => exact typeName_succ ih
  have hsame := (hlater least).symm.trans (hleast (n + least) (Nat.le_add_left ..))
  exact (Option.some.inj hsame).symm

theorem bind_eq_some_ok_iff {x : Run α} {k : α → Run β} {b : β} :
    (x >>= k) = some (.ok b) ↔ ∃ a, x = some (.ok a) ∧ k a = some (.ok b) := by
  simp [bind_eq_some_iff]

theorem bind_of_eq {x : Run α} {a : α} (h : x = some (.ok a)) (k : α → Run β) :
    (x >>= k) = k a := by
  rw [h]
  rfl

theorem mem_annotationParts_quoted {s : String} {marked : Bool}
    (h : readQuoted s = .ok (some e)) :
    e ∈ Expr.annotationParts (.node span (.constant (.text s marked))) := by
  rw [Expr.annotationParts, h]
  exact List.mem_singleton.2 rfl

section Subscripts

variable (hname : typeName n base = some (.ok (some c)))
include hname

theorem typeName_wrapper (hargs : typeArguments index = first :: rest)
    (hc : transparentWrappers.contains c = true) :
    typeName (n + 1) (.node span (.subscript base index)) = typeName n first := by
  have hfirst : firstTypeArgument index = first := by
    obtain ⟨span', rfl⟩ | hhead := firstTypeArgument_cases index
    · cases hargs
    · rw [hargs] at hhead
      exact (Option.some.inj hhead).symm
  rw [typeName, bind_of_eq hname]
  simp only [if_pos hc, hfirst]

theorem typeName_union (hc : c = "Union") :
    typeName (n + 1) (.node span (.subscript base index)) =
      ((typeArguments index).find? (!·.isNull)).elim (pure none) (typeName n) := by
  subst hc
  rw [typeName, bind_of_eq hname]
  have hnot : ¬ transparentWrappers.contains "Union" = true := by decide
  simp only [if_neg hnot, beq_self_eq_true, if_true]
  cases (typeArguments index).find? (!·.isNull) <;> rfl

theorem typeName_plain (hc : IsPlainName c) :
    typeName (n + 1) (.node span (.subscript base index)) = some (.ok (some c)) := by
  rw [typeName, bind_of_eq hname]
  simp only [hc.not_wrapper, beq_iff_eq, if_neg hc.ne_union, Bool.false_eq_true, if_false]
  rfl

/-- The arguments that a subscripted name reads as annotations are parts of the whole. -/
theorem mem_annotationParts (he : e ∈ (Wrapper.ofName (some c)).typeParts (typeArguments index)) :
    e ∈ Expr.annotationParts (.node span (.subscript base index)) :=
  List.mem_cons_of_mem _ (subset_byWrapper (Wrapper.typeParts_subset (typeArguments index))
    (typeName_of_run hname) he)

end Subscripts

/-! ## The class that is set is the one that is named -/

theorem classRef_learn {t t' : Shape} {f : FieldFacts → Except Fault FieldFacts}
    (hf : FieldFacts.KeepsRef t.facts.classRef (f t.facts)) (h : t.learn f = .ok t') :
    t'.facts.classRef = t.facts.classRef := by
  obtain ⟨facts, hfacts, hshape⟩ := bind_eq_ok_iff.1 h
  cases hshape
  rw [hfacts] at hf
  cases hf with
  | ok hkept => exact hkept

theorem classRef_constrain {name : String} {args : List Expr} {keywords : List Keyword}
    {t t' : Shape} (h : t.constrain name args keywords = .ok t') :
    t'.facts.classRef = t.facts.classRef := by
  unfold Shape.constrain at h
  split at h
  · exact classRef_learn (FieldFacts.keepsRef_constrainAll (by rfl) keywords) h
  · split_ifs at h
    · have hkept := classRef_learn (FieldFacts.keepsRef_constrainAll (by rfl) keywords) h
      exact hkept
    · cases h
      rfl
    · cases h
      rfl

theorem classRef_marked (optional : Bool) (t : Shape) :
    (if optional then t.mapFacts ({ · with optional := true }) else t).facts.classRef =
      t.facts.classRef := by
  cases optional <;> rfl

theorem classRef_ne_none {s t : Shape} (h : (pure s : Run Shape) = some (.ok t))
    (ht : t.facts.classRef = some c) : s.facts.classRef ≠ none := by
  cases Except.ok.inj (Option.some.inj h)
  rw [ht]
  exact Option.some_ne_none c

/-- A subscript that is read as a reference to a class names this class. -/
theorem typeName_of_readType_subscript {t t' : Shape}
    (hindex : Expr.hasEmptyIndex (.node span (.subscript base index)) = false)
    (hparts : ∀ e ∈ Expr.annotationParts (.node span (.subscript base index)), ∀ t t' : Shape,
      readType n e t = some (.ok t') → t.facts.classRef = none → t'.facts.classRef = some c →
        typeName n e = some (.ok (some c)))
    (h : readType (n + 1) (.node span (.subscript base index)) t = some (.ok t'))
    (ht : t.facts.classRef = none) (hc : t'.facts.classRef = some c) :
    typeName (n + 1) (.node span (.subscript base index)) = some (.ok (some c)) := by
  rw [readType, bind_eq_some_ok_iff] at h
  obtain ⟨name, hname, h⟩ := h
  cases hargs : typeArguments index with
  | nil => simp [Expr.hasEmptyIndex, hargs] at hindex
  | cons first rest =>
    simp only [hargs] at h
    cases name with
    | none => exact (classRef_ne_none h hc ht).elim
    | some name =>
      have hread (e : Expr) (he : e ∈ (Wrapper.ofName (some name)).typeParts (first :: rest)) :=
        hparts e (mem_annotationParts hname (hargs ▸ he))
      have hstands := Wrapper.stands_ofName name
      generalize Wrapper.ofName (some name) = w at h hread hstands
      cases hstands with
      | annotated hwrapper =>
        obtain ⟨s, hs, h⟩ := bind_eq_some_ok_iff.1 h
        have hkept := classRef_learn (FieldFacts.keepsRef_foldlM (by rfl) rest) (Option.some.inj h)
        rw [typeName_wrapper hname hargs hwrapper]
        exact hread first List.mem_cons_self t s hs ht (hkept.symm.trans hc)
      | optional hwrapper =>
        rw [typeName_wrapper hname hargs hwrapper]
        exact hread first List.mem_cons_self _ t' h ht hc
      | required hwrapper =>
        rw [typeName_wrapper hname hargs hwrapper]
        exact hread first List.mem_cons_self _ t' h ht hc
      | transparent hwrapper =>
        rw [typeName_wrapper hname hargs hwrapper]
        exact hread first List.mem_cons_self t t' h ht hc
      | union hunion =>
        have hmarked := (classRef_marked ((first :: rest).any Expr.isNull) t).trans ht
        rw [typeName_union hname hunion, hargs]
        simp only at h
        cases hfind : (first :: rest).find? (!·.isNull) with
        | none =>
          rw [hfind] at h
          exact (classRef_ne_none h hc hmarked).elim
        | some e =>
          rw [hfind] at h
          exact hread e (Option.mem_toList.2 hfind) _ t' h hmarked hc
      | tuple _ _ =>
        simp only at h
        split_ifs at h
        · exact (classRef_ne_none h hc ht).elim
        · exact (classRef_ne_none h hc ht).elim
      | named hplain =>
        cases Except.ok.inj (Option.some.inj h)
        cases hc
        exact typeName_plain hname hplain
      | classVar _ | literal _ _ | array _ _ | mapping _ _ | unnamed _ _ =>
        exact (classRef_ne_none h hc ht).elim

/-- A reading that sets the class sets it to the one that the annotation names. -/
theorem typeName_of_readType {t t' : Shape} (hindex : ∀ a, e.Reads a → a.hasEmptyIndex = false)
    (h : readType n e t = some (.ok t')) (ht : t.facts.classRef = none)
    (hc : t'.facts.classRef = some c) : typeName n e = some (.ok (some c)) := by
  -- the two readers go down the same parts, one call for each
  induction n generalizing e t t' with
  | zero => cases h
  | succ n ih =>
    have hparts (e' : Expr) (he' : e' ∈ e.annotationParts) (s s' : Shape)
        (h : readType n e' s = some (.ok s')) (hs : s.facts.classRef = none)
        (hc : s'.facts.classRef = some c) : typeName n e' = some (.ok (some c)) :=
      ih (fun a ha => hindex a (.part he' ha)) h hs hc
    obtain ⟨span, form⟩ := e
    cases form with
    | constant value =>
      cases value with
      | text s marked =>
        rw [readType, bind_eq_some_ok_iff] at h
        obtain ⟨read, hread, h⟩ := h
        rw [typeName, bind_of_eq hread]
        cases read with
        | none => exact (classRef_ne_none h hc ht).elim
        | some e =>
          refine hparts e ?_ t t' h ht hc
          exact mem_annotationParts_quoted (Option.some.inj hread)
      | _ => exact (classRef_ne_none h hc ht).elim
    | binary left op right =>
      cases op with
      | bitOr =>
        have hmarked := (classRef_marked (left.isNull || right.isNull) t).trans ht
        rw [readType] at h
        rw [typeName]
        by_cases hleft : left.isNull = true
        · rw [if_pos hleft]
          by_cases hright : right.isNull = true
          · have hfind : [left, right].find? (!·.isNull) = none := by simp [hleft, hright]
            simp only [hfind] at h
            exact (classRef_ne_none h hc hmarked).elim
          · have hfind : [left, right].find? (!·.isNull) = some right := by simp [hleft, hright]
            simp only [hfind] at h
            exact hparts right (Option.mem_toList.2 hfind) _ t' h hmarked hc
        · rw [if_neg hleft]
          have hfind : [left, right].find? (!·.isNull) = some left := by simp [hleft]
          simp only [hfind] at h
          exact hparts left (Option.mem_toList.2 hfind) _ t' h hmarked hc
      | _ => exact (classRef_ne_none h hc ht).elim
    | call func args keywords =>
      have hkept := classRef_constrain (Option.some.inj h)
      rw [ht, hc] at hkept
      cases hkept
    | subscript base index =>
      exact typeName_of_readType_subscript (hindex _ (.here _)) hparts h ht hc
    | name id =>
      cases Except.ok.inj (Option.some.inj h)
      obtain hkept | hset := t.facts.classRef_applyTypeName id
      · cases ht.symm.trans (hkept.symm.trans hc)
      · cases hset.symm.trans hc
        rfl
    | «attribute» value attr =>
      cases Except.ok.inj (Option.some.inj h)
      obtain hkept | hset := t.facts.classRef_applyTypeName attr
      · cases ht.symm.trans (hkept.symm.trans hc)
      · cases hset.symm.trans hc
        rfl
    | _ => exact (classRef_ne_none h hc ht).elim

/-! ## The class that is named is set -/

/-- Marks that a field may be left out, or that it was declared as required. -/
def marking (optional required : Bool) (t : FieldFacts) : FieldFacts :=
  { t with
    optional := t.optional || optional
    requiredMarker := t.requiredMarker || required }

theorem mapFacts_marking_optional (optional : Bool) (t : Shape) :
    t.mapFacts (marking optional false) =
      if optional then t.mapFacts ({ · with optional := true }) else t := by
  cases optional <;> simp [Shape.mapFacts, marking]

theorem mapFacts_marking_required (t : Shape) :
    t.mapFacts (marking false true) = t.mapFacts ({ · with requiredMarker := true }) := by
  simp [Shape.mapFacts, marking]

/-- A reading marks the field and sets the class, and learns from metadata after that. -/
def Sets (n : Nat) (e : Expr) (c : String) : Prop :=
  ∃ (optional required : Bool) (metas : List Expr),
    (∀ m ∈ metas, ∃ a, e.Reads a ∧ m ∈ a.metadata) ∧
    ∀ t, readType n e t = liftM ((t.mapFacts fun f =>
      { marking optional required f with classRef := some c }).learn
        fun f => metas.foldlM FieldFacts.applyMetadata f)

section Sets

variable {m : Nat} {e' : Expr}

theorem sets_of_mapFacts
    (h : ∀ t, readType n e t = pure (t.mapFacts ({ · with classRef := some c }))) : Sets n e c := by
  refine ⟨false, false, [], List.forall_mem_nil _, fun t => ?_⟩
  rw [h]
  simp only [marking, Bool.or_false]
  rfl

/-- A part sets the class for the whole that marks the field and hands on. -/
theorem Sets.of_part (h : Sets n e' c) (he' : e' ∈ e.annotationParts) (optional required : Bool)
    (hread : ∀ t, readType m e t = readType n e' (t.mapFacts (marking optional required))) :
    Sets m e c := by
  obtain ⟨optional', required', metas, hmetas, h⟩ := h
  refine ⟨optional || optional', required || required', metas, fun a ha => ?_, fun t => ?_⟩
  · obtain ⟨part, hpart, hmem⟩ := hmetas a ha
    exact ⟨part, .part he' hpart, hmem⟩
  · rw [hread, h]
    simp only [Shape.mapFacts, marking, Bool.or_assoc]

theorem learn_bind_learn (t : Shape) (metas metas' : List Expr) :
    ((liftM (t.learn fun f => metas.foldlM FieldFacts.applyMetadata f) : Run Shape) >>= fun t =>
      liftM (t.learn fun f => metas'.foldlM FieldFacts.applyMetadata f)) =
      liftM (t.learn fun f => (metas ++ metas').foldlM FieldFacts.applyMetadata f) := by
  simp only [Shape.learn, List.foldlM_append]
  cases metas.foldlM FieldFacts.applyMetadata t.facts <;> rfl

/-- A part sets the class for the whole that has metadata for it. -/
theorem Sets.of_annotated (h : Sets n e' c) (he' : e' ∈ e.annotationParts)
    (hrest : ∀ a ∈ rest, a ∈ e.metadata)
    (hread : ∀ t, readType m e t = readType n e' t >>= fun t =>
      liftM (t.learn fun f => rest.foldlM FieldFacts.applyMetadata f)) : Sets m e c := by
  obtain ⟨optional, required, metas, hmetas, h⟩ := h
  refine ⟨optional, required, metas ++ rest, fun a ha => ?_, fun t => ?_⟩
  · rcases List.mem_append.1 ha with ha | ha
    · obtain ⟨part, hpart, hmem⟩ := hmetas a ha
      exact ⟨part, .part he' hpart, hmem⟩
    · exact ⟨e, .here e, hrest a ha⟩
  · rw [hread, h, learn_bind_learn]

end Sets

theorem not_isNull_of_typeName (h : typeName n e = some (.ok (some c))) : e.isNull = false := by
  cases n with
  | zero => cases h
  | succ n =>
    unfold Expr.isNull
    split
    · cases h
    · rfl

/-- A subscript that names a class is read as a reference to it. -/
theorem sets_subscript (hindex : Expr.hasEmptyIndex (.node span (.subscript base index)) = false)
    (hvar : Expr.isClassVar (.node span (.subscript base index)) = false)
    (hown : FieldFacts.isTypeOfItsOwn c = false) (hempty : c ≠ "")
    (hparts : ∀ e ∈ Expr.annotationParts (.node span (.subscript base index)),
      typeName n e = some (.ok (some c)) → Sets n e c)
    (h : typeName (n + 1) (.node span (.subscript base index)) = some (.ok (some c))) :
    Sets (n + 1) (.node span (.subscript base index)) c := by
  have hrun := h
  rw [typeName, bind_eq_some_ok_iff] at hrun
  obtain ⟨name, hname, hrun⟩ := hrun
  cases hargs : typeArguments index with
  | nil => simp [Expr.hasEmptyIndex, hargs] at hindex
  | cons first rest =>
    cases name with
    | none => cases hrun
    | some name =>
      have hpart (e : Expr) (he : e ∈ (Wrapper.ofName (some name)).typeParts (first :: rest)) :
          e ∈ Expr.annotationParts (.node span (.subscript base index)) :=
        mem_annotationParts hname (hargs ▸ he)
      have hfirst (hwrapper : transparentWrappers.contains name = true) :
          first ∈ Expr.annotationParts (.node span (.subscript base index)) ∧ Sets n first c := by
        have hmem := hpart first (by simp [typeParts_of_transparent hwrapper])
        exact ⟨hmem, hparts first hmem (typeName_wrapper hname hargs hwrapper ▸ h)⟩
      have hplain (hname' : IsPlainName name) : name = c := by
        rw [typeName_plain hname hname'] at h
        cases h
        rfl
      -- what a name stands for as a wrapper settles what it refers to
      have hstands := Wrapper.stands_ofName name
      generalize hw : Wrapper.ofName (some name) = w at hstands
      cases hstands with
      | annotated hwrapper =>
        obtain ⟨hmem, hset⟩ := hfirst hwrapper
        have hmetadata (a : Expr) (ha : a ∈ rest) :
            a ∈ Expr.metadata (.node span (.subscript base index)) := by
          refine subset_byWrapper (Wrapper.metadata_subset (typeArguments index))
            (typeName_of_run hname) ?_
          rw [hw, hargs]
          exact ha
        refine hset.of_annotated hmem hmetadata fun t => ?_
        rw [readType, bind_of_eq hname]
        simp only [hargs, hw]
      | optional hwrapper =>
        obtain ⟨hmem, hset⟩ := hfirst hwrapper
        refine hset.of_part hmem true false fun t => ?_
        rw [readType, bind_of_eq hname, mapFacts_marking_optional]
        simp only [hargs, hw, if_true]
      | required hwrapper =>
        obtain ⟨hmem, hset⟩ := hfirst hwrapper
        refine hset.of_part hmem false true fun t => ?_
        rw [readType, bind_of_eq hname, mapFacts_marking_required]
        simp only [hargs, hw]
      | transparent hwrapper =>
        obtain ⟨hmem, hset⟩ := hfirst hwrapper
        refine hset.of_part hmem false false fun t => ?_
        rw [readType, bind_of_eq hname, mapFacts_marking_optional]
        simp only [hargs, hw, Bool.false_eq_true, if_false]
      | classVar hc =>
        rw [hc] at hname
        simp [Expr.isClassVar, typeName_of_run hname] at hvar
      | union hunion =>
        rw [typeName_union hname hunion, hargs] at h
        cases hfind : (first :: rest).find? (!·.isNull) with
        | none =>
          rw [hfind] at h
          cases h
        | some e =>
          rw [hfind] at h
          have hmem := hpart e (by rw [hw]; exact Option.mem_toList.2 hfind)
          refine (hparts e hmem h).of_part hmem ((first :: rest).any Expr.isNull) false fun t => ?_
          rw [readType, bind_of_eq hname, mapFacts_marking_optional]
          simp only [hargs, hw, hfind]
      | unnamed hname' hc => exact (hempty ((hplain hname').symm.trans hc)).elim
      | named hname' =>
        obtain rfl := hplain hname'
        refine sets_of_mapFacts fun t => ?_
        rw [readType, bind_of_eq hname]
        simp only [hargs, hw]
      | literal hname' hc | array hname' hc | tuple hname' hc | mapping hname' hc =>
        rw [hplain hname', hown] at hc
        cases hc

/-- The class that an annotation names is set, unless the name stands for a type of its own. -/
theorem sets_of_typeName (hindex : ∀ a, e.Reads a → a.hasEmptyIndex = false)
    (hvar : ∀ a, e.Reads a → a.isClassVar = false) (hown : FieldFacts.isTypeOfItsOwn c = false)
    (hempty : c ≠ "") (h : typeName n e = some (.ok (some c))) : Sets n e c := by
  induction n generalizing e with
  | zero => cases h
  | succ n ih =>
    have hparts (e' : Expr) (he' : e' ∈ e.annotationParts)
        (h : typeName n e' = some (.ok (some c))) : Sets n e' c :=
      ih (fun a ha => hindex a (.part he' ha)) (fun a ha => hvar a (.part he' ha)) h
    obtain ⟨span, form⟩ := e
    cases form with
    | constant value =>
      cases value with
      | text s marked =>
        rw [typeName, bind_eq_some_ok_iff] at h
        obtain ⟨read, hread, h⟩ := h
        cases read with
        | none => cases h
        | some e =>
          have hmem : e ∈ Expr.annotationParts (.node span (.constant (.text s marked))) :=
            mem_annotationParts_quoted (Option.some.inj hread)
          refine (hparts e hmem h).of_part hmem false false fun t => ?_
          rw [readType, bind_of_eq hread, mapFacts_marking_optional]
          simp only [Bool.false_eq_true, if_false]
      | _ => cases h
    | binary left op right =>
      cases op with
      | bitOr =>
        rw [typeName] at h
        obtain ⟨member, hfind, h⟩ : ∃ member, [left, right].find? (!·.isNull) = some member ∧
            typeName n member = some (.ok (some c)) := by
          by_cases hleft : left.isNull = true
          · rw [if_pos hleft] at h
            exact ⟨right, by simp [hleft, not_isNull_of_typeName h], h⟩
          · rw [if_neg hleft] at h
            exact ⟨left, by simp [hleft], h⟩
        have hmem : member ∈ Expr.annotationParts (.node span (.binary left .bitOr right)) :=
          Option.mem_toList.2 hfind
        refine (hparts member hmem h).of_part hmem (left.isNull || right.isNull) false fun t => ?_
        rw [readType, mapFacts_marking_optional]
        simp only [hfind]
      | _ => cases h
    | subscript base index =>
      exact sets_subscript (hindex _ (.here _)) (hvar _ (.here _)) hown hempty hparts h
    | name id =>
      cases h
      exact sets_of_mapFacts fun t => by
        simp only [readType, Shape.mapFacts, FieldFacts.applyTypeName_eq hown]
    | «attribute» value attr =>
      cases h
      exact sets_of_mapFacts fun t => by
        simp only [readType, Shape.mapFacts, FieldFacts.applyTypeName_eq hown]
    | _ => cases h

/-! ## From runs to readings -/

/-- A reading of a field ends with the facts that the recursion comes to. -/
theorem Ends.exists_facts {x : Nat → Run Shape} {y : Except Fault FieldType}
    (h : Ends Mirrors x y) :
    ∃ least, ∀ n, least ≤ n → ∃ z, x n = some z ∧ z.map Shape.facts = y.map FieldType.facts := by
  cases h with
  | ok least hx hmirrors =>
    exact ⟨least, fun n hn => ⟨_, hx n hn, congrArg Except.ok hmirrors.facts_eq⟩⟩
  | error least hx => exact ⟨least, fun n hn => ⟨_, hx n hn, rfl⟩⟩

theorem facts_learn (t : Shape) (f : FieldFacts → Except Fault FieldFacts) :
    (t.learn f).map Shape.facts = f t.facts := by
  unfold Shape.learn
  cases f t.facts <;> rfl

theorem typeName_of_classRef {t : FieldType} (hindex : ∀ a, e.Reads a → a.hasEmptyIndex = false)
    (h : FieldType.ofTypeExpr e = .ok t) (hc : t.facts.classRef = some c) :
    e.typeName = .ok (some c) := by
  obtain ⟨least, hleast⟩ := (ends_ofTypeExpr e).exists_facts
  obtain ⟨z, hz, hfacts⟩ := hleast least le_rfl
  rw [h] at hfacts
  cases z with
  | error f => cases hfacts
  | ok s =>
    rw [← Except.ok.inj hfacts] at hc
    exact typeName_of_run (typeName_of_readType hindex hz rfl hc)

/-- An annotation that names a class is read as a reference to it, up to what metadata adds. -/
theorem exists_facts_of_typeName (hindex : ∀ a, e.Reads a → a.hasEmptyIndex = false)
    (hvar : ∀ a, e.Reads a → a.isClassVar = false) (hown : FieldFacts.isTypeOfItsOwn c = false)
    (hempty : c ≠ "") (h : e.typeName = .ok (some c)) :
    ∃ (optional required : Bool) (metas : List Expr),
      (∀ m ∈ metas, ∃ a, e.Reads a ∧ m ∈ a.metadata) ∧
      (FieldType.ofTypeExpr e).map FieldType.facts = metas.foldlM FieldFacts.applyMetadata
        { typeText := e.print, optional := optional, requiredMarker := required,
          classRef := some c } := by
  obtain ⟨least, hleast⟩ := (ends_ofTypeExpr e).exists_facts
  obtain ⟨least', hleast'⟩ := (ends_typeName e).exists_least
  obtain ⟨z, hz, hfacts⟩ := hleast (max least least') (le_max_left ..)
  have hnamed := hleast' (max least least') (le_max_right ..)
  rw [h] at hnamed
  obtain ⟨optional, required, metas, hmetas, hread⟩ :=
    sets_of_typeName hindex hvar hown hempty hnamed
  refine ⟨optional, required, metas, hmetas, ?_⟩
  rw [hread] at hz
  rw [← hfacts, ← Option.some.inj hz]
  exact facts_learn _ _

end Recursion

/-- The two readings of an annotation agree, if nothing in it is subscripted with nothing.  The
class that a field refers to is the one that its annotation names.  And the class that the
annotation names is the one that the field refers to, if nothing in it is a class variable and the
name does not stand for a type of its own: what is read from the field then is this class, whether
the field may be left out and was marked as required, and what metadata says, which leaves the class
alone and which alone can make the reading fail. -/
theorem classRef_iff_typeName (e : Expr) (hindex : ∀ a, e.Reads a → a.hasEmptyIndex = false) :
    (∀ t c, FieldType.ofTypeExpr e = .ok t → t.facts.classRef = some c →
      e.typeName = .ok (some c)) ∧
    ∀ c, e.typeName = .ok (some c) → c ≠ "" → FieldFacts.isTypeOfItsOwn c = false →
      (∀ a, e.Reads a → a.isClassVar = false) →
      (∃ (optional required : Bool) (metas : List Expr),
        (∀ m ∈ metas, ∃ a, e.Reads a ∧ m ∈ a.metadata) ∧
        (FieldType.ofTypeExpr e).map FieldType.facts = metas.foldlM FieldFacts.applyMetadata
          { typeText := e.print, optional := optional, requiredMarker := required,
            classRef := some c }) ∧
      ∀ t, FieldType.ofTypeExpr e = .ok t → t.facts.classRef = some c := by
  refine ⟨fun t c => Recursion.typeName_of_classRef hindex, fun c hname hempty hown hvar => ?_⟩
  obtain ⟨optional, required, metas, hmetas, hfacts⟩ :=
    Recursion.exists_facts_of_typeName hindex hvar hown hempty hname
  refine ⟨⟨optional, required, metas, hmetas, hfacts⟩, fun t ht => ?_⟩
  have hkept : FieldFacts.KeepsRef (some c) ((FieldType.ofTypeExpr e).map FieldType.facts) :=
    by rw [hfacts]; exact FieldFacts.keepsRef_foldlM (by rfl) metas
  rw [ht] at hkept
  cases hkept with
  | ok hc => exact hc

/-- Whether a check holds of an annotation and of those that are read in it, down to a depth. -/
def Expr.allRead (check : Expr → Bool) : Nat → Expr → Bool
  | 0, _ => false
  | depth + 1, e => check e && e.annotationParts.all (Expr.allRead check depth)

theorem Expr.of_allRead {check : Expr → Bool} {depth : Nat} {e a : Expr}
    (h : e.allRead check depth = true) (ha : e.Reads a) : check a = true := by
  induction ha generalizing depth with
  | here e =>
    cases depth with
    | zero => cases h
    | succ depth => exact (Bool.and_eq_true_iff.1 h).1
  | part he' _ ih =>
    cases depth with
    | zero => cases h
    | succ depth => exact ih (List.all_eq_true.1 (Bool.and_eq_true_iff.1 h).2 _ he')

end

/-- A class is found behind metadata, quotes and a union. -/
theorem classRef_iff_typeName_wrapped :
    ∃ e t, (readExpr "Annotated['None | models.Item', Field(min_length=1)]").toOption = some e ∧
      (∀ a, e.Reads a → a.hasEmptyIndex = false ∧ a.isClassVar = false) ∧
      FieldFacts.isTypeOfItsOwn "Item" = false ∧ e.typeName = .ok (some "Item") ∧
      FieldType.ofTypeExpr e = .ok t ∧ t.facts.classRef = some "Item" ∧
      t.facts.minLength = some 1 := by
  have hchecked : ((readExpr "Annotated['None | models.Item', Field(min_length=1)]").toOption.any
      fun e => e.allRead (fun a => !a.hasEmptyIndex && !a.isClassVar) 6 &&
        decide (e.typeName = .ok (some "Item")) &&
        (FieldType.ofTypeExpr e).toOption.any fun t => decide (t.facts.minLength = some 1)) =
      true := by decide +kernel
  obtain ⟨e, he, hchecked⟩ := (Option.any_eq_true _ _).1 hchecked
  simp only [Bool.and_eq_true, decide_eq_true_eq] at hchecked
  obtain ⟨⟨hparts, hname⟩, htype⟩ := hchecked
  obtain ⟨t, ht, hlength⟩ := exists_ok_of_any htype
  have hread (a : Expr) (ha : e.Reads a) : a.hasEmptyIndex = false ∧ a.isClassVar = false := by
    simpa using Expr.of_allRead hparts ha
  have hown : FieldFacts.isTypeOfItsOwn "Item" = false := by decide
  obtain ⟨-, hset⟩ := (classRef_iff_typeName e fun a ha => (hread a ha).1).2 "Item" hname
    (by decide) hown fun a ha => (hread a ha).2
  exact ⟨e, t, he, hread, hown, hname, ht, hset t ht, of_decide_eq_true hlength⟩

end RouteLens
