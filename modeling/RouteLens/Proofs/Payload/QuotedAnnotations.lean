import RouteLens.Proofs.Grammar.Readers
import RouteLens.Proofs.Payload.Recursion

/-!
# Quoted annotations

Reading annotations comes to an end.  An annotation is a finite tree, but a text in it is read as an
expression again, so that its size alone does not bound the recursion.  What bounds it is the length
of the text: every text inside of it is shorter (`textsWithin_of_readQuoted`).  The depth that the
readers are given for a text, one more than its length, is therefore never used up, and the
recursion that has no such depth ends with what they read (`ends_typeName`, `ends_fieldType`).
-/

namespace RouteLens

variable {edition : Nat} [CharacterNames edition]

@[elab_as_elim]
theorem Expr.sizeInduction {motive : Expr → Prop}
    (step : ∀ e, (∀ e', sizeOf e' < sizeOf e → motive e') → motive e) (e : Expr) : motive e :=
  (measure sizeOf).wf.induction e step

/-! ## Type arguments -/

section TypeArguments

variable {bound : Nat} {e index : Expr}

theorem sizeOf_le_of_mem_typeArguments (h : e ∈ typeArguments index) :
    sizeOf e ≤ sizeOf index := by
  unfold typeArguments at h
  split at h
  · have := List.sizeOf_lt_of_mem h
    simp only [Expr.node.sizeOf_spec, ExprForm.tuple.sizeOf_spec]
    omega
  · simp_all

theorem textsWithin_of_mem_typeArguments (hindex : index.TextsWithin bound)
    (h : e ∈ typeArguments index) : e.TextsWithin bound := by
  unfold typeArguments at h
  split at h
  · exact Expr.textsWithin_node.1 hindex e h
  · simp_all

theorem firstTypeArgument_mem (index : Expr) :
    firstTypeArgument index = index ∨ firstTypeArgument index ∈ typeArguments index := by
  unfold firstTypeArgument typeArguments
  split <;> simp

theorem sizeOf_firstTypeArgument_le (index : Expr) :
    sizeOf (firstTypeArgument index) ≤ sizeOf index := by
  obtain h | h := firstTypeArgument_mem index
  · exact Nat.le_of_eq (congrArg sizeOf h)
  · exact sizeOf_le_of_mem_typeArguments h

theorem textsWithin_firstTypeArgument (h : index.TextsWithin bound) :
    (firstTypeArgument index).TextsWithin bound := by
  obtain heq | hmem := firstTypeArgument_mem index
  · rw [heq]
    exact h
  · exact textsWithin_of_mem_typeArguments h hmem

end TypeArguments

namespace Recursion

/-! ## The class of an annotation -/

/-- The class that an annotation refers to is found if it is found for the texts in it. -/
theorem ends_typeNameWith {bound : Nat} {quoted : String → Except Fault (Option String)}
    (hquoted : ∀ s span marked, s.length + 2 ≤ bound →
      Ends Eq (typeName · (.node span (.constant (.text s marked)))) (quoted s))
    {e : Expr} (he : e.TextsWithin bound) : Ends Eq (typeName · e) (e.typeNameWith quoted) := by
  induction e using Expr.sizeInduction with
  | step e ih =>
    obtain ⟨span, form⟩ := e
    have hform := Expr.textsWithin_node.1 he
    cases form with
    | constant value =>
      cases value with
      | text s marked => exact hquoted s span marked hform
      | _ => exact .of_succ (ends_pure rfl)
    | subscript value index =>
      simp only [Expr.node.sizeOf_spec, ExprForm.subscript.sizeOf_spec] at ih
      rw [typeNameWith_subscript]
      refine .of_succ ?_
      simp only [typeName]
      refine (ih value (by omega) hform.1).bind fun name _ _ hname => hname ▸ ?_
      cases name with
      | none => exact ends_pure rfl
      | some name =>
        by_cases hwrapper : transparentWrappers.contains name
        · simp only [if_pos hwrapper]
          have hsize := sizeOf_firstTypeArgument_le index
          exact ih _ (by omega) (textsWithin_firstTypeArgument hform.2)
        · simp only [if_neg hwrapper]
          by_cases hunion : (name == "Union") = true
          · simp only [if_pos hunion]
            cases hfind : (typeArguments index).find? (!·.isNull) with
            | none => exact ends_pure rfl
            | some e =>
              have hmem := List.mem_of_find?_eq_some hfind
              have hsize := sizeOf_le_of_mem_typeArguments hmem
              exact ih e (by omega) (textsWithin_of_mem_typeArguments hform.2 hmem)
          · simp only [if_neg hunion]
            exact ends_pure rfl
    | binary left op right =>
      simp only [Expr.node.sizeOf_spec, ExprForm.binary.sizeOf_spec] at ih
      cases op with
      | bitOr =>
        rw [Expr.typeNameWith, ExprForm.typeNameWith]
        refine .of_succ ?_
        simp only [typeName]
        by_cases hnull : left.isNull
        · simp only [if_pos hnull]
          exact ih right (by omega) hform.2
        · simp only [if_neg hnull]
          exact ih left (by omega) hform.1
      | _ => exact .of_succ (ends_pure rfl)
    | _ => exact .of_succ (ends_pure rfl)

/-- A quoted annotation quotes only shorter ones, so that a depth above its length suffices. -/
theorem ends_quotedTypeName {fuel : Nat} {s : String} (h : s.length < fuel) (span : Span)
    (marked : Bool) :
    Ends Eq (typeName · (.node span (.constant (.text s marked)))) (quotedTypeName fuel s) := by
  induction fuel generalizing s span marked with
  | zero => cases h
  | succ fuel ih =>
    rw [quotedTypeName]
    refine .of_succ ?_
    simp only [typeName]
    refine (ends_lift (readQuoted s)).bind fun read _ hread heq => ?_
    subst heq
    cases read with
    | none => exact ends_pure rfl
    | some e =>
      exact ends_typeNameWith (fun s' span marked hs' => ih (by omega) span marked)
        (textsWithin_of_readQuoted hread)

theorem ends_typeName (e : Expr) : Ends Eq (typeName · e) e.typeName := by
  obtain ⟨bound, he⟩ := Node.exists_textsWithin (.expr e)
  refine ends_typeNameWith (fun s span marked _ => ?_) he
  exact ends_quotedTypeName s.length.lt_succ_self span marked

/-! ## Field types -/

mutual

/-- A shape stands for a field type: the facts are the same, and the annotations of the elements are
read as the types of the elements. -/
inductive Mirrors : Shape → FieldType → Prop
  | mk {facts : FieldFacts} {element : Option Expr} {fixed : Option (List Expr)}
      {type : Option ElementType} {types : Option (List ElementType)} :
      SomeMirrors element type → FixedMirror fixed types →
      Mirrors ⟨facts, element, fixed⟩ (.mk facts type types)

/-- An annotation is read as the type of an element, if there is one. -/
inductive SomeMirrors : Option Expr → Option ElementType → Prop
  | none : SomeMirrors none none
  | some {e : Expr} {type : ElementType} : ElementMirrors e type → SomeMirrors (some e) (some type)

/-- Annotations are read as the types of a fixed number of elements, if there is one. -/
inductive FixedMirror : Option (List Expr) → Option (List ElementType) → Prop
  | none : FixedMirror none none
  | some {es : List Expr} {types : List ElementType} :
      AllMirror es types → FixedMirror (some es) (some types)

/-- An annotation is read as the type of an element. -/
inductive ElementMirrors : Expr → ElementType → Prop
  | ok {e : Expr} {t : Shape} {known : FieldType} (least : Nat) :
      (∀ n, least ≤ n → readType n e (.unknown e.print) = .some (.ok t)) → Mirrors t known →
      ElementMirrors e (.mk e (.ok known))
  | error {e : Expr} {f : Fault} (least : Nat) :
      (∀ n, least ≤ n → readType n e (.unknown e.print) = .some (.error f)) →
      ElementMirrors e (.mk e (.error f))

/-- Annotations are read as the types of elements one by one. -/
inductive AllMirror : List Expr → List ElementType → Prop
  | nil : AllMirror [] []
  | cons {e : Expr} {es : List Expr} {type : ElementType} {types : List ElementType} :
      ElementMirrors e type → AllMirror es types → AllMirror (e :: es) (type :: types)

end

theorem elementMirrors_of_ends {e : Expr} {known : Except Fault FieldType}
    (h : Ends Mirrors (readType · e (.unknown e.print)) known) :
    ElementMirrors e (.mk e known) := by
  cases h with
  | ok least hread hknown => exact .ok least hread hknown
  | error least hread => exact .error least hread

section Mirrors

variable {t : Shape} {known : FieldType}

theorem mirrors_unknown (typeText : String) : Mirrors (.unknown typeText) (.unknown typeText) :=
  .mk .none .none

theorem Mirrors.facts_eq (h : Mirrors t known) : t.facts = known.facts := by
  cases h with
  | mk helement hfixed => rfl

theorem Mirrors.mapFacts (h : Mirrors t known) (f : FieldFacts → FieldFacts) :
    Mirrors (t.mapFacts f) (known.mapFacts f) := by
  cases h with
  | mk helement hfixed => exact .mk helement hfixed

theorem Mirrors.markOptional (h : Mirrors t known) (optional : Bool) :
    Mirrors (if optional then t.mapFacts ({ · with optional := true }) else t)
      (if optional then known.mapFacts ({ · with optional := true }) else known) := by
  split
  · exact h.mapFacts _
  · exact h

theorem Mirrors.learn (h : Mirrors t known) (f : FieldFacts → Except Fault FieldFacts) :
    Ends Mirrors (fun _ => liftM (t.learn f)) (known.learn f) := by
  cases h with
  | @mk facts _ _ _ _ helement hfixed =>
    rw [Shape.learn, FieldType.learn]
    cases f facts with
    | ok facts => exact ends_pure (.mk helement hfixed)
    | error e => exact .error 0 fun _ _ => rfl

theorem Mirrors.withElement (h : Mirrors t known) {e : Option Expr} {type : Option ElementType}
    (he : SomeMirrors e type) :
    Mirrors (t.withElement e) (known.withElement type) := by
  cases h with
  | mk helement hfixed =>
    cases he with
    | none => exact .mk helement hfixed
    | some he => exact .mk (.some he) hfixed

end Mirrors

section Annotations

variable {bound : Nat} {quoted : QuotedReader}

/-- An annotation is read alike from whatever is known. -/
def ReadsAlike (quoted : QuotedReader) (e : Expr) : Prop :=
  ∀ t known, Mirrors t known → Ends Mirrors (readType · e t) (e.readType quoted known)

theorem ReadsAlike.elementMirrors {e : Expr} (h : ReadsAlike quoted e) :
    ElementMirrors e (e.readElement quoted) := by
  obtain ⟨span, form⟩ := e
  exact elementMirrors_of_ends (h _ _ (mirrors_unknown _))

theorem someMirrors_map {o : Option Expr} (h : ∀ e ∈ o, ReadsAlike quoted e) :
    SomeMirrors o (o.map (·.readElement quoted)) := by
  cases o with
  | none => exact .none
  | some e => exact .some (h e rfl).elementMirrors

theorem allMirror_map {es : List Expr} (h : ∀ e ∈ es, ReadsAlike quoted e) :
    AllMirror es (es.map (·.readElement quoted)) := by
  induction es with
  | nil => exact .nil
  | cons e es ih =>
    exact .cons (h e List.mem_cons_self).elementMirrors
      (ih fun e he => h e (List.mem_cons_of_mem _ he))

/-- The first member that is not the absent value is read alike. -/
theorem ends_find {es : List Expr} (hes : ∀ e ∈ es, ReadsAlike quoted e) {t : Shape}
    {known : FieldType} (h : Mirrors t known) :
    Ends Mirrors
      (fun n => match es.find? (!·.isNull) with
        | none => return t
        | some e => readType n e t)
      (match es.find? (!·.isNull) with
        | none => .ok known
        | some e => e.readType quoted known) := by
  cases hfind : es.find? (!·.isNull) with
  | none => exact ends_pure h
  | some e => exact hes e (List.mem_of_find?_eq_some hfind) _ _ h

/-- The constraints of a call are read as by the readers that are given a depth. -/
theorem ends_constrain {func : Expr} {args : List Expr} {keywords : List Keyword} {span : Span}
    (hargs : ∀ e ∈ args, ReadsAlike quoted e)
    (hkeywords : ∀ k ∈ keywords, ReadsAlike quoted k.value) {t : Shape} {known : FieldType}
    (h : Mirrors t known) :
    Ends Mirrors (fun _ => liftM (t.constrain (func.terminalName?.getD "") args keywords))
      (Expr.readType quoted (.node span (.call func args keywords)) known) := by
  rw [Expr.readType, readType_call, Shape.constrain]
  simp only
  generalize func.terminalName?.getD "" = name
  cases constrainedKind? name with
  | some kind => exact h.learn _
  | none =>
    by_cases harray : isArrayCall name
    · simp only [if_pos harray]
      have hfirst : SomeMirrors args.head? (args.head?.map (·.readElement quoted)) :=
        someMirrors_map fun e he => hargs e (List.mem_of_mem_head? he)
      have hitem : SomeMirrors (itemTypeExpr? keywords)
          ((itemTypeExpr? keywords).map (·.readElement quoted)) := by
        refine someMirrors_map fun e he => ?_
        obtain ⟨k, hk, rfl⟩ := Option.map_eq_some_iff.1 he
        exact hkeywords k (List.mem_filter.1 (List.mem_of_getLast? hk)).1
      exact (((h.mapFacts _).withElement hfirst).withElement hitem).learn _
    · simp only [if_neg harray]
      by_cases hdate : (name == "condate") = true
      · simp only [if_pos hdate]
        exact ends_pure (h.mapFacts _)
      · simp only [if_neg hdate]
        exact ends_pure h

/-- A subscripted name is read alike if its arguments are. -/
theorem readsAlike_subscript {span : Span} {base index : Expr}
    (hargs : ∀ e ∈ typeArguments index, ReadsAlike quoted e) :
    ReadsAlike quoted (.node span (.subscript base index)) := by
  intro t known h
  rw [readType_subscript]
  refine .of_succ ?_
  simp only [readType]
  refine (ends_typeName base).bind fun name _ _ hname => hname ▸ ?_
  cases hcases : typeArguments index with
  | nil => exact ends_pure (h.mapFacts _)
  | cons first rest =>
    rw [hcases] at hargs
    have hfirst := hargs first List.mem_cons_self
    cases hw : Wrapper.ofName name with
    | annotated => exact (hfirst _ _ h).bind fun t known _ h => h.learn _
    | optional | required => exact hfirst _ _ (h.mapFacts _)
    | transparent => exact hfirst _ _ h
    | union => exact ends_find hargs (h.markOptional _)
    | array => exact ends_pure ((h.mapFacts _).withElement (.some hfirst.elementMirrors))
    | tuple =>
      simp only [Wrapper.read]
      by_cases hopen : isOpenTuple (first :: rest)
      · simp only [if_pos hopen]
        exact ends_pure ((h.mapFacts _).withElement (.some hfirst.elementMirrors))
      · simp only [if_neg hopen]
        cases h with
        | mk helement hfixed => exact ends_pure (.mk helement (.some (allMirror_map hargs)))
    | classVar | literal | mapping | named n => exact ends_pure (h.mapFacts _)
    | unnamed => exact ends_pure h

/-- An annotation is read alike if the texts in it are. -/
theorem readsAlike_of_texts
    (hquoted : ∀ s span marked t known, s.length + 2 ≤ bound → Mirrors t known →
      Ends Mirrors (readType · (.node span (.constant (.text s marked))) t) (quoted s known))
    {e : Expr} (he : e.TextsWithin bound) : ReadsAlike quoted e := by
  induction e using Expr.sizeInduction with
  | step e ih =>
    intro t known h
    obtain ⟨span, form⟩ := e
    have hform := Expr.textsWithin_node.1 he
    cases form with
    | constant value =>
      cases value with
      | text s marked => exact hquoted s span marked t known hform h
      | _ => exact .of_succ (ends_pure h)
    | binary left op right =>
      simp only [Expr.node.sizeOf_spec, ExprForm.binary.sizeOf_spec] at ih
      cases op with
      | bitOr =>
        have hmembers (e : Expr) (hmem : e ∈ [left, right]) : ReadsAlike quoted e := by
          obtain rfl | rfl : e = left ∨ e = right := by simpa using hmem
          · exact ih _ (by omega) hform.1
          · exact ih _ (by omega) hform.2
        rw [readType_union]
        refine .of_succ ?_
        simp only [readType]
        exact ends_find hmembers (h.markOptional _)
      | _ => exact .of_succ (ends_pure h)
    | call func args keywords =>
      simp only [Expr.node.sizeOf_spec, ExprForm.call.sizeOf_spec] at ih
      have hargs (e : Expr) (hmem : e ∈ args) : ReadsAlike quoted e := by
        have hsize := List.sizeOf_lt_of_mem hmem
        exact ih e (by omega) (hform.2.1 e hmem)
      have hkeywords (k : Keyword) (hmem : k ∈ keywords) : ReadsAlike quoted k.value := by
        have hsize := List.sizeOf_lt_of_mem hmem
        obtain ⟨kspan, name, value⟩ := k
        simp only [Keyword.mk.sizeOf_spec] at hsize
        exact ih value (by omega) (Node.textsWithin_keyword.1 (hform.2.2 _ hmem))
      exact .of_succ <| ends_constrain hargs hkeywords h
    | subscript base index =>
      simp only [Expr.node.sizeOf_spec, ExprForm.subscript.sizeOf_spec] at ih
      have hargs (e : Expr) (hmem : e ∈ typeArguments index) : ReadsAlike quoted e := by
        have hsize := sizeOf_le_of_mem_typeArguments hmem
        exact ih e (by omega) (textsWithin_of_mem_typeArguments hform.2 hmem)
      exact readsAlike_subscript hargs t known h
    | name id => exact .of_succ (ends_pure (h.mapFacts _))
    | «attribute» value attr => exact .of_succ (ends_pure (h.mapFacts _))
    | _ => exact .of_succ (ends_pure h)

/-- Reading a quoted annotation ends: what it quotes is shorter than the quotation. -/
theorem ends_readQuotedType {fuel : Nat} {s : String} (hs : s.length < fuel) (span : Span)
    (marked : Bool) {t : Shape} {known : FieldType} (h : Mirrors t known) :
    Ends Mirrors (readType · (.node span (.constant (.text s marked))) t)
      (readQuotedType fuel s known) := by
  induction fuel generalizing s span marked t known with
  | zero => cases hs
  | succ fuel ih =>
    rw [readQuotedType]
    refine .of_succ ?_
    simp only [readType]
    refine (ends_lift (readQuoted s)).bind fun read _ hread heq => ?_
    subst heq
    cases read with
    | none => exact ends_pure h
    | some e =>
      have he := textsWithin_of_readQuoted hread
      refine readsAlike_of_texts (fun s' span marked t known hs' h => ?_) he t known h
      exact ih (by omega) span marked h

theorem ends_ofTypeExpr (e : Expr) :
    Ends Mirrors (readType · e (.unknown e.print)) (FieldType.ofTypeExpr e) := by
  obtain ⟨bound, he⟩ := Node.exists_textsWithin (.expr e)
  refine readsAlike_of_texts (fun s span marked t known _ h => ?_) he _ _ (mirrors_unknown _)
  exact ends_readQuotedType s.length.lt_succ_self span marked h

/-- Reading the type of a field ends, with what the readers that are given a depth read. -/
theorem ends_fieldType (p : PropertyDecl) : Ends Mirrors (fieldType · p) p.fieldType := by
  refine (ends_ofTypeExpr p.typeExpr).bind fun t known _ h => ?_
  cases p.value with
  | none => exact ends_pure h
  | some v =>
    by_cases hv : FieldFacts.isEllipsis v
    · simp only [if_pos hv]
      exact ends_pure h
    · simp only [if_neg hv]
      obtain ⟨span, form⟩ := v
      cases form with
      | call func args keywords =>
        by_cases hcall : FieldFacts.isFieldCall func.terminalName?
        · simp only [if_pos hcall]
          exact h.learn _
        · simp only [if_neg hcall]
          exact ends_pure (h.mapFacts _)
      | _ => exact ends_pure (h.mapFacts _)

end Annotations

end Recursion

end RouteLens
