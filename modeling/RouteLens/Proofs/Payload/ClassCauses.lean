import RouteLens.Analysis.Auth
import RouteLens.Analysis.LoopFetches
import RouteLens.Proofs.Payload.FieldCauses
import RouteLens.Proofs.Payload.Limit

/-!
# Why a class cannot be analysed

A class holds the cause of a fault if one of its annotations does, the declaration of one of its
fields, or a signature or decorator that cannot be printed (`ClassDecl.Causes`).  An analysis that
looks up classes has a result unless a class in reach holds such a cause: a null character where
only the names of types are read, an expression without a text where they are printed, any cause
where payloads are built.
-/

namespace RouteLens

variable {edition : Nat} [CharacterNames edition]

variable {S : Fault → Prop}

/-- The expressions of a class that are read for the class that they refer to: its bases, the
annotations of its fields and parameters, and what its constructor calls for the value of a
field. -/
def ClassDecl.typeExprs (c : ClassDecl) : List Expr :=
  c.bases ++ (c.properties ++ c.instanceProperties).map PropertyDecl.typeExpr ++
    c.methods.flatMap (fun m => m.paramDecls.filterMap ParamDecl.typeExpr) ++
    c.selfAssignments.filterMap fun a => a.2.callee?

/-- The expressions of a method that are printed: the types and values in its signature, and its
decorators. -/
def MethodDecl.printedExprs (m : MethodDecl) : List Expr :=
  m.signatureTypes ++ m.decoratorExprs ++ m.paramDecls.flatMap ParamDecl.exprs

/-- A class holds the cause of a fault. -/
inductive ClassDecl.Causes (c : ClassDecl) : Fault → Prop
  | typeExpr {e a : Expr} : e ∈ c.typeExprs → e.Reads a → .nullCharacter ∈ a.annotationFaults →
      c.Causes .nullCharacter
  | propertyType {p : PropertyDecl} {a : Expr} {f : Fault} : p ∈ c.properties →
      p.typeExpr.Reads a → f ∈ a.annotationFaults → c.Causes f
  | propertyValue {p : PropertyDecl} {v : Expr} {f : Fault} : p ∈ c.properties → p.value = some v →
      f ∈ v.declarationFaults → c.Causes f
  | printed {m : MethodDecl} {e : Expr} {f : Fault} : m ∈ c.methods → e ∈ m.printedExprs →
      f ∈ e.printFaults → c.Causes f

/-- The faults that a class may cause are expected. -/
def ClassDecl.CausesOnly (S : Fault → Prop) (c : ClassDecl) : Prop :=
  ∀ f, c.Causes f → S f

/-- Whether an annotation and those that are read in it, down to a depth, cause nothing. -/
def Expr.isClean : Nat → Expr → Bool
  | 0, _ => false
  | depth + 1, e => e.annotationFaults.isEmpty && e.annotationParts.all (Expr.isClean depth)

/-- Whether a class holds no cause, as far as reading its annotations down to a depth tells. -/
def ClassDecl.isClean (depth : Nat) (c : ClassDecl) : Bool :=
  c.typeExprs.all (Expr.isClean depth) &&
    (c.properties.all fun p =>
      p.typeExpr.isClean depth && p.value.all fun v => v.declarationFaults.isEmpty) &&
    c.methods.all fun m => m.printedExprs.all (·.printFaults.isEmpty)

theorem Expr.annotationFaults_of_isClean {depth : Nat} {e a : Expr} (h : e.isClean depth = true)
    (ha : e.Reads a) : a.annotationFaults = [] := by
  induction ha generalizing depth with
  | here e =>
    cases depth with
    | zero => cases h
    | succ depth => exact List.isEmpty_iff.1 (Bool.and_eq_true_iff.1 h).1
  | part he' _ ih =>
    cases depth with
    | zero => cases h
    | succ depth => exact ih (List.all_eq_true.1 (Bool.and_eq_true_iff.1 h).2 _ he')

/-- The check for causes is sound. -/
theorem ClassDecl.not_causes_of_isClean {depth : Nat} {c : ClassDecl}
    (h : c.isClean depth = true) (f : Fault) : ¬ c.Causes f := by
  simp only [isClean, Bool.and_eq_true] at h
  obtain ⟨⟨htypes, hproperties⟩, hmethods⟩ := h
  have hproperty {p : PropertyDecl} (hp : p ∈ c.properties) :=
    Bool.and_eq_true_iff.1 (List.all_eq_true.1 hproperties p hp)
  rintro (⟨he, ha, hf⟩ | ⟨hp, ha, hf⟩ | ⟨hp, hv, hf⟩ | ⟨hm, he, hf⟩)
  · rw [Expr.annotationFaults_of_isClean (List.all_eq_true.1 htypes _ he) ha] at hf
    cases hf
  · rw [Expr.annotationFaults_of_isClean (hproperty hp).1 ha] at hf
    cases hf
  · have hvalue := (hproperty hp).2
    rw [hv, Option.all_some, List.isEmpty_iff] at hvalue
    rw [hvalue] at hf
    cases hf
  · have hprinted := List.all_eq_true.1 (List.all_eq_true.1 hmethods _ hm) _ he
    rw [List.isEmpty_iff.1 hprinted] at hf
    cases hf

namespace ClassDecl.CausesOnly

variable {c : ClassDecl} (h : c.CausesOnly S)
include h

theorem property {p : PropertyDecl} (hp : p ∈ c.properties) : p.CausesOnly S :=
  ⟨fun _ ha f hf => h f (.propertyType hp ha hf), fun _ hv f hf => h f (.propertyValue hp hv hf)⟩

theorem typeName {e : Expr} (he : e ∈ c.typeExprs) : Succeeds (OfNull S) e.typeName := by
  -- of the causes in the expression, a name comes across null characters only
  have hcauses : e.CausesOnly fun f => f = .nullCharacter → S f := by
    rintro a ha f hf rfl
    exact h _ (.typeExpr he ha hf)
  exact (meets_typeName hcauses).mono (fun f hf => ⟨hf.1, hf.2 hf.1⟩) fun _ h => h

theorem baseNames : Succeeds (OfNull S) c.baseNames := by
  refine Meets.bind (succeeds_mapM fun e he => h.typeName ?_) fun _ _ => succeeds_ok _
  simp only [typeExprs, List.mem_append]
  exact .inl (.inl (.inl he))

theorem paramTypeName {m : MethodDecl} (hm : m ∈ c.methods) {p : ParamDecl}
    (hp : p ∈ m.paramDecls) : Succeeds (OfNull S) p.typeName := by
  unfold ParamDecl.typeName
  cases htype : p.typeExpr with
  | none => exact succeeds_ok none
  | some e =>
    refine h.typeName ?_
    simp only [typeExprs, List.mem_append]
    exact .inl (.inr (List.mem_flatMap.2 ⟨m, hm, List.mem_filterMap.2 ⟨p, hp, htype⟩⟩))

/-- What is printed of a method can be printed, unless a fault of printing is expected. -/
theorem printAll {m : MethodDecl} (hm : m ∈ c.methods) {es : List Expr}
    (hes : es ⊆ m.printedExprs) : Succeeds (OfPrinting S) (Expr.printAll es) :=
  Expr.succeeds_printAll fun _ he _ hf =>
    ⟨Expr.exists_reason_of_mem_printFaults hf, h _ (.printed hm (hes he) hf)⟩

/-! ## Collaborators and callers -/

/-- Reading the types of the fields fails by a null character only. -/
theorem fieldTypes : Succeeds (OfNull S) (FieldTypes.ofClass c) := by
  have hdeclared : Succeeds (OfNull S)
      (FieldTypes.declaredTypes (c.properties ++ c.instanceProperties)) := by
    refine meets_foldlM trivial fun t _ p hp => ?_
    refine Meets.bind (h.typeName ?_) fun name _ => ?_
    · simp only [typeExprs, List.mem_append]
      exact .inl (.inl (.inr (List.mem_map_of_mem hp)))
    · cases name <;> exact succeeds_ok _
  have hparams : Succeeds (OfNull S) (FieldTypes.paramTypes c.constructorParams) := by
    refine meets_foldlM trivial fun t _ p hp => ?_
    have hname : Succeeds (OfNull S) p.typeName := by
      unfold constructorParams at hp
      split at hp
      · cases hp
      · rename_i m hm
        exact h.paramTypeName (List.mem_of_find?_eq_some hm) hp
    refine hname.bind fun name _ => ?_
    cases name <;> exact succeeds_ok _
  refine hdeclared.bind fun declared _ => hparams.bind fun params _ => ?_
  refine Meets.bind (P := fun _ => True) ?_ fun assigned _ => succeeds_ok _
  refine meets_foldlM trivial fun t _ a ha => ?_
  have hvalue : Succeeds (OfNull S) (FieldTypes.valueType? params a.2) := by
    unfold FieldTypes.valueType?
    split
    · exact succeeds_ok _
    · rename_i heq
      refine Meets.bind (h.typeName ?_) fun name _ => succeeds_ok _
      simp only [typeExprs, List.mem_append]
      exact .inr (List.mem_filterMap.2 ⟨a, ha, by rw [heq]; rfl⟩)
    · exact succeeds_ok none
  refine hvalue.bind fun name _ => ?_
  cases name <;> exact succeeds_ok _

theorem firstServiceCall {m : MethodDecl} (hm : m ∈ c.methods) :
    Succeeds (OfNull S) m.firstServiceCall? := by
  unfold MethodDecl.firstServiceCall?
  rw [owner_of_mem_methods hm]
  cases m.occurrences.findSome? Occurrence.fieldCall? with
  | none => exact succeeds_ok none
  | some call => exact h.fieldTypes.bind fun types _ => succeeds_ok _

theorem serviceCalls {m : MethodDecl} (hm : m ∈ c.methods) :
    Succeeds (OfNull S) m.serviceCalls := by
  unfold MethodDecl.serviceCalls
  rw [owner_of_mem_methods hm]
  exact h.fieldTypes.bind fun types _ => succeeds_ok _

theorem auth {m : MethodDecl} (hm : m ∈ c.methods) (r : AuthRules) :
    Succeeds (fun f => OfNull S f ∨ OfPrinting S f) (r.analyze m) := by
  have hname (p : ParamDecl) (hp : p ∈ m.paramDecls) :
      Succeeds (fun f => OfNull S f ∨ OfPrinting S f) p.typeName :=
    (h.paramTypeName hm hp).mono (fun _ => .inl) fun _ h => h
  have hprint (p : ParamDecl) (hp : p ∈ m.paramDecls) :
      Succeeds (fun f => OfNull S f ∨ OfPrinting S f) (Expr.printAll p.exprs) := by
    refine (h.printAll hm fun e he => ?_).mono (fun _ => .inr) fun _ h => h
    exact List.mem_append_right _ (List.mem_flatMap.2 ⟨p, hp, he⟩)
  refine Meets.bind (succeeds_mapM fun p hp => (hprint p hp).bind fun _ _ =>
    (hname p hp).bind fun name _ => succeeds_ok _) fun types _ => ?_
  refine Meets.bind (succeeds_filterM fun p hp => ?_) fun requests _ => succeeds_ok _
  unfold AuthRules.isRequest
  split
  · exact succeeds_ok true
  · exact (hname p hp).bind fun name _ => succeeds_ok _

end ClassDecl.CausesOnly

/-! ## Bases and fields -/

namespace Ordered

variable {α : Type} {P : α → Prop}

theorem forall_put {t : Ordered α} (ht : ∀ e ∈ t, P e.2) {key : String} {value : α}
    (hvalue : P value) : ∀ e ∈ put key value t, P e.2 := by
  induction t with
  | nil => exact List.forall_mem_singleton.2 hvalue
  | cons e t ih =>
    obtain ⟨he, ht⟩ := List.forall_mem_cons.1 ht
    rw [put]
    split
    · exact List.forall_mem_cons.2 ⟨hvalue, ht⟩
    · exact List.forall_mem_cons.2 ⟨he, ih ht⟩

theorem forall_overlay {base upper : Ordered α} (hbase : ∀ e ∈ base, P e.2)
    (hupper : ∀ e ∈ upper, P e.2) : ∀ e ∈ base.overlay upper, P e.2 := by
  unfold overlay
  induction upper generalizing base with
  | nil => exact hbase
  | cons e upper ih =>
    obtain ⟨he, hupper⟩ := List.forall_mem_cons.1 hupper
    exact ih (forall_put hbase he) hupper

end Ordered

namespace PayloadRules

variable {α : Type} {classes : String → List ClassDecl} {r : PayloadRules} {limit : Nat}
  {c : ClassDecl}

theorem succeeds_findBases (names : List String) :
    Succeeds S ((findBases c names).answer classes) := by
  induction names with
  | nil => exact succeeds_ok []
  | cons n ns ih =>
    simp only [findBases, Inquiry.answer_seq, Inquiry.answer_findClass, ok_bind]
    refine ih.bind fun rest _ => ?_
    cases (classes n).head? <;> exact succeeds_ok _

theorem succeeds_anyVisited {check : Visit Bool} {cs : List ClassDecl}
    (hcheck : ∀ c ∈ cs, ∀ seen, Succeeds S ((check c seen).answer classes)) (seen : Visited) :
    Succeeds S ((anyVisited check cs seen).answer classes) := by
  induction cs generalizing seen with
  | nil => exact succeeds_ok _
  | cons c cs ih =>
    simp only [anyVisited, Inquiry.answer_seq]
    refine (hcheck c List.mem_cons_self seen).bind fun x _ => ?_
    obtain ⟨found, seen'⟩ := x
    cases found with
    | true => exact succeeds_ok _
    | false => exact ih (fun c hc => hcheck c (List.mem_cons_of_mem _ hc)) seen'

/-- Every field of a table causes only expected faults. -/
def FieldsCauseOnly (S : Fault → Prop) (fields : Ordered PropertyDecl) : Prop :=
  ∀ e ∈ fields, e.2.CausesOnly S

theorem fieldsCauseOnly_nil : FieldsCauseOnly S [] :=
  List.forall_mem_nil _

theorem meets_mergeVisited {visit : Visit (Ordered PropertyDecl)} {cs : List ClassDecl}
    (hvisit : ∀ c ∈ cs, ∀ seen,
      Meets S (fun x => FieldsCauseOnly S x.1) ((visit c seen).answer classes))
    {done : Ordered PropertyDecl} (hdone : FieldsCauseOnly S done) (seen : Visited) :
    Meets S (fun x => FieldsCauseOnly S x.1)
      ((mergeVisited visit cs done seen).answer classes) := by
  induction cs generalizing done seen with
  | nil => exact .ok hdone
  | cons c cs ih =>
    simp only [mergeVisited, Inquiry.answer_seq]
    refine (hvisit c List.mem_cons_self seen).bind fun x hx => ?_
    exact ih (fun c hc => hvisit c (List.mem_cons_of_mem _ hc))
      (Ordered.forall_overlay hdone hx) x.2

section InReach

variable (hclasses : ∀ c, InReach classes c → c.CausesOnly S)
include hclasses

theorem succeeds_baseNames (hc : InReach classes c) : Succeeds S c.baseNames :=
  (hclasses c hc).baseNames.mono (fun _ hf => hf.2) fun _ h => h

theorem meets_projectBases (hc : InReach classes c) :
    Meets S (fun bs => ∀ b ∈ bs, InReach classes b) ((r.projectBases c).answer classes) := by
  have hbases : Succeeds S ((r.projectBases c).answer classes) := by
    simp only [projectBases, Inquiry.answer_seq, Inquiry.answer_lift]
    exact (succeeds_baseNames hclasses hc).bind fun names _ => succeeds_findBases _
  exact hbases.and_eq.mono (fun _ hf => hf) fun bs h => inReach_of_mem_projectBases h.2

/-- The search for a base fails only by a cause in a class that it reaches. -/
theorem succeeds_hasBaseFrom (names : List String) (hc : InReach classes c) (seen : Visited) :
    Succeeds S ((r.hasBaseFrom names limit c seen).answer classes) := by
  induction limit generalizing c seen with
  | zero => exact succeeds_ok _
  | succ limit ih =>
    rw [hasBaseFrom]
    by_cases hseen : seen.contains c.key = true
    · rw [if_pos hseen]
      exact succeeds_ok _
    · simp only [if_neg hseen, Inquiry.answer_seq, Inquiry.answer_lift]
      refine (succeeds_baseNames hclasses hc).bind fun bases _ => ?_
      by_cases hany : bases.any names.contains = true
      · rw [if_pos hany]
        exact succeeds_ok _
      · rw [if_neg hany, Inquiry.answer_seq]
        refine (meets_projectBases hclasses hc).bind fun bs hbs => ?_
        exact succeeds_anyVisited (fun b hb seen => ih (hbs b hb) seen) _

theorem succeeds_hasBase (names : List String) (hc : InReach classes c) :
    Succeeds S ((r.hasBase limit names c).answer classes) := by
  simp only [hasBase, Inquiry.answer_seq]
  exact (succeeds_hasBaseFrom hclasses names hc []).bind fun _ _ => succeeds_ok _

theorem succeeds_isStructured (hc : InReach classes c) :
    Succeeds S ((r.isStructured limit c).answer classes) := by
  simp only [isStructured, isEnum, Inquiry.answer_seq]
  refine (succeeds_hasBase hclasses _ hc).bind fun isEnum _ => ?_
  cases isEnum with
  | true => exact succeeds_ok false
  | false =>
    by_cases hfields : (c.decoratorNames.contains "dataclass" || !c.properties.isEmpty) = true
    · simp only [if_pos hfields]
      exact succeeds_ok true
    · simp only [if_neg hfields]
      exact succeeds_hasBase hclasses _ hc

theorem meets_fieldsFrom (hc : InReach classes c) (seen : Visited) :
    Meets S (fun x => FieldsCauseOnly S x.1) ((r.fieldsFrom limit c seen).answer classes) := by
  induction limit generalizing c seen with
  | zero => exact .ok fieldsCauseOnly_nil
  | succ limit ih =>
    rw [fieldsFrom]
    by_cases hseen : seen.contains c.key = true
    · rw [if_pos hseen]
      exact .ok fieldsCauseOnly_nil
    · simp only [if_neg hseen, Inquiry.answer_seq]
      refine (meets_projectBases hclasses hc).bind fun bs hbs => ?_
      refine (meets_mergeVisited (fun b hb seen => ih (hbs b hb) seen) fieldsCauseOnly_nil _).bind
        fun inherited hinherited => .ok (Ordered.forall_overlay hinherited ?_)
      intro e he
      obtain ⟨p, hp, rfl⟩ := List.mem_map.1 he
      exact (hclasses c hc).property hp

theorem meets_fields (hc : InReach classes c) :
    Meets S (FieldsCauseOnly S) ((r.fields limit c).answer classes) := by
  simp only [fields, Inquiry.answer_seq]
  exact (meets_fieldsFrom hclasses hc []).bind fun x hx => .ok hx

theorem succeeds_enumValue {target : Option ClassDecl}
    (htarget : ∀ c ∈ target, InReach classes c) :
    Succeeds S ((r.enumValue? limit target).answer classes) := by
  cases target with
  | none => exact succeeds_ok none
  | some c =>
    have hc := htarget c rfl
    simp only [enumValue?, isEnum, Inquiry.answer_seq]
    refine (succeeds_hasBase hclasses _ hc).bind fun isEnum _ => ?_
    cases isEnum with
    | false => exact succeeds_ok none
    | true =>
      simp only [if_true, firstValue?, Inquiry.answer_seq]
      exact (succeeds_hasBase hclasses _ hc).bind fun _ _ => succeeds_ok _

end InReach

/-! ## Payloads -/

theorem succeeds_settled {f : FieldFacts} (h : f.CausesOnly S) : Succeeds S (settled? f) := by
  unfold settled?
  split
  · exact succeeds_ok _
  · exact succeeds_ok _
  · exact succeeds_ok _
  · exact h.numberSample.bind fun _ _ => succeeds_ok _
  · exact succeeds_ok _

theorem meets_referenced (f : FieldFacts) :
    Meets S (fun target => ∀ c ∈ target, InReach classes c) ((referenced f).answer classes) := by
  cases htarget : (referenced f).answer classes with
  | ok target => exact .ok (inReach_of_referenced htarget)
  | error e =>
    unfold referenced at htarget
    split at htarget
    · split at htarget <;> cases htarget
    · cases htarget

theorem succeeds_times {q : Inquiry α} (hq : Succeeds S (q.answer classes)) (n : Nat) :
    Succeeds S ((times q n).answer classes) := by
  induction n with
  | zero => exact succeeds_ok []
  | succ n ih =>
    simp only [times, Inquiry.answer_seq]
    exact hq.bind fun _ _ => ih.bind fun _ _ => succeeds_ok _

section Parts

variable {a : Assembly α} {nested : ClassDecl → Inquiry α}

theorem succeeds_classPart (hclasses : ∀ c, InReach classes c → c.CausesOnly S)
    (hnested : ∀ c, InReach classes c → Succeeds S ((nested c).answer classes))
    {f : FieldFacts} {target : Option ClassDecl} (htarget : ∀ c ∈ target, InReach classes c) :
    Succeeds S ((r.classPart a limit nested f target).answer classes) := by
  cases target with
  | none => exact succeeds_ok _
  | some c =>
    simp only [classPart, Inquiry.answer_seq]
    refine (succeeds_isStructured hclasses (htarget c rfl)).bind fun isStructured _ => ?_
    cases isStructured with
    | false => exact succeeds_ok _
    | true => exact hnested c (htarget c rfl)

mutual

/-- A part of a payload fails only by the causes in its type and in the classes it refers to. -/
theorem succeeds_partOf (hclasses : ∀ c, InReach classes c → c.CausesOnly S)
    (hnested : ∀ c, InReach classes c → Succeeds S ((nested c).answer classes)) :
    ∀ t : FieldType, t.CausesOnly S → Succeeds S ((r.partOf a limit nested t).answer classes)
  | .mk f element fixed, .mk hfacts helement hfixed => by
    unfold partOf
    simp only [Inquiry.answer_seq, Inquiry.answer_lift]
    refine (succeeds_settled hfacts).bind fun value _ => ?_
    cases value with
    | some v => exact succeeds_ok _
    | none =>
      simp only [Inquiry.answer_seq]
      refine (meets_referenced f).bind fun target htarget => ?_
      refine (succeeds_enumValue hclasses htarget).bind fun value _ => ?_
      cases value with
      | some v => exact succeeds_ok _
      | none =>
        by_cases harray : f.isArray = true
        · simp only [if_pos harray]
          cases fixed with
          | some es =>
            simp only [Inquiry.answer_seq]
            exact (succeeds_elementParts hclasses hnested es (hfixed es rfl)).bind
              fun _ _ => succeeds_ok _
          | none =>
            simp only [Inquiry.answer_seq]
            refine Meets.bind (succeeds_times ?_ _) fun _ _ => succeeds_ok _
            exact succeeds_someElement hclasses hnested element helement
        · simp only [if_neg harray]
          exact succeeds_classPart hclasses hnested htarget

theorem succeeds_someElement (hclasses : ∀ c, InReach classes c → c.CausesOnly S)
    (hnested : ∀ c, InReach classes c → Succeeds S ((nested c).answer classes)) :
    ∀ element : Option ElementType, (∀ e ∈ element, e.CausesOnly S) →
      Succeeds S ((r.someElement a limit nested element).answer classes)
  | none, _ => succeeds_ok _
  | some e, h => succeeds_elementPart hclasses hnested e (h e rfl)

theorem succeeds_elementPart (hclasses : ∀ c, InReach classes c → c.CausesOnly S)
    (hnested : ∀ c, InReach classes c → Succeeds S ((nested c).answer classes)) :
    ∀ e : ElementType, e.CausesOnly S →
      Succeeds S ((r.elementPart a limit nested e).answer classes)
  | .mk _ (.ok t), .ok hprinted ht => by
    simp only [elementPart, Inquiry.answer_seq, Inquiry.answer_lift]
    refine hprinted.bind fun _ _ => ht.facts.checkLength.bind fun _ _ => ?_
    exact succeeds_partOf hclasses hnested t ht
  | .mk _ (.error _), .error hprinted hf => by
    simp only [elementPart, Inquiry.answer_seq, Inquiry.answer_lift]
    exact hprinted.bind fun _ _ => .error hf

theorem succeeds_elementParts (hclasses : ∀ c, InReach classes c → c.CausesOnly S)
    (hnested : ∀ c, InReach classes c → Succeeds S ((nested c).answer classes)) :
    ∀ es : List ElementType, (∀ e ∈ es, e.CausesOnly S) →
      Succeeds S ((r.elementParts a limit nested es).answer classes)
  | [], _ => succeeds_ok _
  | e :: es, h => by
    rw [elementParts]
    simp only [Inquiry.answer_seq]
    refine (succeeds_elementPart hclasses hnested e (h e List.mem_cons_self)).bind fun _ _ => ?_
    exact (succeeds_elementParts hclasses hnested es
      fun e he => h e (List.mem_cons_of_mem _ he)).bind fun _ _ => succeeds_ok _

end

/-- The parts for the fields of a class fail only by the causes in these fields. -/
theorem succeeds_partsOf (hclasses : ∀ c, InReach classes c → c.CausesOnly S)
    (hnested : ∀ c, InReach classes c → Succeeds S ((nested c).answer classes)) (total : Bool)
    {fields : Ordered PropertyDecl} (hfields : FieldsCauseOnly S fields) :
    Succeeds S ((r.partsOf a limit nested total fields).answer classes) := by
  induction fields with
  | nil => exact succeeds_ok _
  | cons field fields ih =>
    obtain ⟨name, p⟩ := field
    obtain ⟨hp, hfields⟩ := List.forall_mem_cons.1 hfields
    simp only [partsOf]
    by_cases hname : Text.startsWith name "_" = true
    · simp only [if_pos hname]
      exact ih hfields
    · simp only [if_neg hname, Inquiry.answer_seq, Inquiry.answer_lift]
      refine hp.typeExpr.printed.bind fun _ _ => hp.fieldType.bind fun t ht => ?_
      by_cases hrequired : isRequired total t.facts = true
      · simp only [if_pos hrequired, Inquiry.answer_seq, Inquiry.answer_lift]
        refine ht.facts.checkLength.bind fun _ _ => ?_
        refine (succeeds_partOf hclasses hnested t ht).bind fun _ _ => ?_
        exact (ih hfields).bind fun _ _ => succeeds_ok _
      · simp only [if_neg hrequired]
        exact ih hfields

theorem succeeds_recordAt (hclasses : ∀ c, InReach classes c → c.CausesOnly S) {c : ClassDecl}
    (hc : InReach classes c) (depth maxDepth : Int) :
    Succeeds S ((r.recordAt a limit depth maxDepth c).answer classes) := by
  rw [recordAt, recordWith]
  simp only [Inquiry.answer_seq]
  refine (meets_fields hclasses hc).bind fun fields hfields => ?_
  refine Meets.bind (succeeds_partsOf hclasses (fun n hn => ?_) _ hfields)
    fun _ _ => succeeds_ok _
  by_cases hdepth : maxDepth ≤ depth
  · simp only [if_pos hdepth]
    exact succeeds_ok _
  · simp only [if_neg hdepth]
    exact succeeds_recordAt hclasses hn (depth + 1) maxDepth
termination_by (maxDepth - depth).toNat
decreasing_by omega

end Parts

end PayloadRules

open PayloadRules

section Payloads

variable {classes : String → List ClassDecl}
  (hclasses : ∀ c, InReach classes c → c.CausesOnly S)
include hclasses

theorem succeeds_synthesize (r : PayloadRules) (limit : Nat) (className : String)
    (maxDepth : Option Int) :
    Succeeds S ((synthesize r limit className maxDepth).answer classes) := by
  simp only [synthesize, Inquiry.answer_seq, Inquiry.answer_findClass, ok_bind]
  cases hc : (classes className).head? with
  | none => exact succeeds_ok none
  | some c =>
    simp only [Inquiry.answer_seq]
    exact (succeeds_recordAt hclasses ⟨className, hc⟩ 0 _).bind fun _ _ => succeeds_ok _

/-- The payloads of a handler fail only by the causes in its signature and in the classes in
reach. -/
theorem succeeds_paramPayloads (r : PayloadRules) (limit : Nat) {params : List ParamDecl}
    (hparams : ∀ p ∈ params, Succeeds S p.typeName) (done : Ordered Value) :
    Succeeds S ((paramPayloads r limit params done).answer classes) := by
  induction params generalizing done with
  | nil => exact succeeds_ok done
  | cons p params ih =>
    obtain ⟨hp, hparams⟩ := List.forall_mem_cons.1 hparams
    simp only [paramPayloads, Inquiry.answer_seq, Inquiry.answer_lift]
    refine hp.bind fun name _ => ?_
    cases name with
    | none => exact ih hparams done
    | some n =>
      simp only [Inquiry.answer_seq, Inquiry.answer_findClass, ok_bind]
      cases hc : (classes n).head? with
      | none => exact ih hparams done
      | some c =>
        simp only [Inquiry.answer_seq]
        refine (succeeds_isStructured hclasses ⟨n, hc⟩).bind fun isStructured _ => ?_
        cases isStructured with
        | false => exact ih hparams done
        | true =>
          simp only [if_true, Inquiry.answer_seq]
          exact (succeeds_recordAt hclasses ⟨n, hc⟩ 0 _).bind fun v _ => ih hparams _

end Payloads

end RouteLens
