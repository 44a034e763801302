import RouteLens.Proofs.Number.Range
import RouteLens.Proofs.Outcomes
import RouteLens.Proofs.Payload.QuotedAnnotations

/-!
# Why an annotation cannot be read

Reading an annotation goes down to those of its parts that are annotations themselves, and into the
text of a quoted one (`Expr.annotationParts`).  What can be wrong on the way is an annotation that
cannot be printed, a quoted one that holds a null character, or a bound that is no finite number in
the floating-point range or too large for a length (`Expr.annotationFaults`).  The class that an
annotation refers to is found unless there is a null character (`meets_typeName`).
-/

namespace RouteLens

variable {edition : Nat} [CharacterNames edition]

/-! ## Bounds -/

/-- The faults that computing with a number may cause.  Integers are moved by one before they become
floating-point numbers. -/
def Quantity.faults : Quantity → List Fault
  | .int n =>
    if Binary64.overflow ≤ n.natAbs + 1 then [.integerTooLarge, .quotientTooLarge] else []
  | .float .nan => [.undefinedNumber]
  | .float (.infinite _) => [.infiniteNumber]
  | .float (.finite ..) => []

/-- The fault that a text of such a length may cause. -/
def Quantity.lengthFaults (q : Quantity) : List Fault :=
  if q.truncate.toOption.any fun n => (Value.maxLength : Int) < n then [.lengthTooLarge] else []

namespace Expr

/-- The number that an expression is as a bound. -/
def quantity? (e : Expr) : Option Quantity :=
  e.literal?.bind Quantity.ofValue?

/-- The faults that an expression may cause as a bound. -/
def boundFaults (e : Expr) : List Fault :=
  e.quantity?.elim [] Quantity.faults

/-- The fault that an expression may cause as a least length. -/
def lengthFaults (e : Expr) : List Fault :=
  e.quantity?.elim [] Quantity.lengthFaults

end Expr

/-- The keywords that give a least length. -/
def isLeastLength (name : String) : Bool :=
  name == "min_length" || name == "min_items"

/-- The markers whose first argument is a least length. -/
def marksLeastLength (name : String) : Bool :=
  name == "MinLen" || name == "Len"

/-- The faults that a keyword argument may cause as a bound. -/
def Keyword.boundFaults (k : Keyword) : List Fault :=
  k.value.boundFaults ++ if k.name.any isLeastLength then k.value.lengthFaults else []

/-- The faults that a field declaration may cause by the bounds it gives. -/
def Expr.declarationFaults : Expr → List Fault
  | .node _ (.call func _ keywords) =>
    if FieldFacts.isFieldCall func.terminalName? then keywords.flatMap Keyword.boundFaults else []
  | _ => []

/-- The faults that a marker may cause by the bounds it gives. -/
def markerFaults (name : String) (args : List Expr) (keywords : List Keyword) : List Fault :=
  args.flatMap Expr.boundFaults ++
    (if marksLeastLength name then args.head?.elim [] Expr.lengthFaults else []) ++
    keywords.flatMap Keyword.boundFaults

/-- The faults that a metadata entry may cause by the bounds it gives. -/
def Expr.metadataFaults : Expr → List Fault
  | .node _ (.call func args keywords) =>
    if FieldFacts.isFieldCall func.terminalName? then keywords.flatMap Keyword.boundFaults
    else markerFaults (func.terminalName?.getD "") args keywords
  | _ => []

/-! ## Annotations inside annotations -/

/-- The arguments of a wrapper that are read as annotations. -/
def Wrapper.typeParts (args : List Expr) : Wrapper → List Expr
  | .annotated | .optional | .required | .classVar | .transparent | .array => args.head?.toList
  | .union => (args.find? (!·.isNull)).toList
  | .tuple => args
  | .literal | .mapping | .named _ | .unnamed => []

/-- The arguments of a wrapper that are read as metadata. -/
def Wrapper.metadata (args : List Expr) : Wrapper → List Expr
  | .annotated => args.tail
  | _ => []

/-- What a wrapper makes of its arguments, by the name of what is subscribed if it has one, else all
that a wrapper can make of them. -/
def byWrapper (parts : Wrapper → List Expr) (all : List Expr) : Expr → List Expr
  | .node _ (.name id) => parts (.ofName (some id))
  | .node _ (.attribute _ attr) => parts (.ofName (some attr))
  | _ => all

/-- The annotations that are read in the course of reading an annotation, one step down. -/
def Expr.annotationParts : Expr → List Expr
  | .node _ (.constant (.text s _)) => (readQuoted s).toOption.join.toList
  | .node _ (.subscript base index) =>
    base :: byWrapper (Wrapper.typeParts (typeArguments index)) (typeArguments index) base
  | .node _ (.binary left .bitOr right) => ([left, right].find? (!·.isNull)).toList
  | .node _ (.call func args keywords) =>
    if isArrayCall (func.terminalName?.getD "") then
      args.head?.toList ++ (itemTypeExpr? keywords).toList
    else []
  | _ => []

/-- The fault of printing an expression, if it has one. -/
def Expr.printFaults (e : Expr) : List Fault :=
  match e.printed with
  | .ok _ => []
  | .error f => [f]

/-- The faults that reading an annotation may cause, its parts apart: by a null character in a
quoted one, and by the bounds in a call that constrains a type and in metadata. -/
def Expr.readingFaults : Expr → List Fault
  | .node _ (.constant (.text s _)) => if s.toList.contains '\x00' then [.nullCharacter] else []
  | .node _ (.call func _ keywords) =>
    let name := func.terminalName?.getD ""
    if (constrainedKind? name).isSome || isArrayCall name then
      keywords.flatMap Keyword.boundFaults
    else []
  | .node _ (.subscript base index) =>
    (byWrapper (Wrapper.metadata (typeArguments index)) (typeArguments index).tail base).flatMap
      Expr.metadataFaults
  | _ => []

/-- The faults that an annotation may cause, its parts apart. -/
def Expr.annotationFaults (e : Expr) : List Fault :=
  e.printFaults ++ e.readingFaults

/-- An annotation is read in the course of reading another one. -/
inductive Expr.Reads : Expr → Expr → Prop
  | here (e : Expr) : Reads e e
  | part {e e' a : Expr} : e' ∈ e.annotationParts → Reads e' a → Reads e a

/-- All faults that an annotation may cause are expected. -/
def Expr.CausesOnly (S : Fault → Prop) (e : Expr) : Prop :=
  ∀ a, e.Reads a → ∀ f ∈ a.annotationFaults, S f

variable {S : Fault → Prop} {e e' : Expr}

theorem Expr.CausesOnly.part (h : e.CausesOnly S) (he' : e' ∈ e.annotationParts) :
    e'.CausesOnly S :=
  fun a ha => h a (.part he' ha)

theorem Expr.CausesOnly.own (h : e.CausesOnly S) {f : Fault} (hf : f ∈ e.readingFaults) : S f :=
  h e (.here e) f (List.mem_append_right _ hf)

theorem Expr.succeeds_printed (h : ∀ f ∈ e.printFaults, S f) : Succeeds S e.printed := by
  unfold printFaults at h
  cases hprinted : e.printed with
  | ok s => exact succeeds_ok s
  | error f =>
    rw [hprinted] at h
    exact .error (h f List.mem_cons_self)

theorem Expr.CausesOnly.printed (h : e.CausesOnly S) : Succeeds S e.printed :=
  succeeds_printed fun f hf => h e (.here e) f (List.mem_append_left _ hf)

theorem Expr.succeeds_printAll {es : List Expr} (h : ∀ e ∈ es, ∀ f ∈ e.printFaults, S f) :
    Succeeds S (printAll es) := by
  unfold printAll
  induction es with
  | nil => exact succeeds_ok ()
  | cons e es ih =>
    obtain ⟨he, hes⟩ := List.forall_mem_cons.1 h
    rw [List.forM_eq_forM, List.forM_cons]
    refine Meets.bind (P := fun _ => True) ?_ fun _ _ => ih hes
    exact (succeeds_printed he).bind fun _ _ => succeeds_ok ()

/-- Printing fails only because an expression cannot be printed. -/
theorem Expr.exists_reason_of_mem_printFaults {f : Fault} (h : f ∈ e.printFaults) :
    ∃ reason, f = .unprintable reason := by
  unfold printFaults printed at h
  cases hprint : Printer.printExpr false .test e with
  | ok s =>
    rw [hprint] at h
    cases h
  | error reason =>
    rw [hprint] at h
    exact ⟨reason, List.mem_singleton.1 h⟩

/-- The fault of a null character, if it is expected. -/
abbrev OfNull (S : Fault → Prop) (f : Fault) : Prop :=
  f = .nullCharacter ∧ S f

/-- The fault of an expression that cannot be printed, if it is expected. -/
abbrev OfPrinting (S : Fault → Prop) (f : Fault) : Prop :=
  (∃ reason, f = .unprintable reason) ∧ S f

/-! ## Quoted annotations -/

theorem mem_of_mem_strip {s : String} {c : Char} (h : c ∈ (Text.strip s).toList) :
    c ∈ s.toList := by
  rw [Text.strip, String.toList_ofList, List.mem_reverse] at h
  have h := (List.dropWhile_sublist _).mem h
  rw [List.mem_reverse] at h
  exact (List.dropWhile_sublist _).mem h

theorem mem_of_mem_unifyLineEnds {cs : List Char} {c : Char} (hc : c ≠ '\n')
    (h : c ∈ unifyLineEnds cs) : c ∈ cs := by
  fun_induction unifyLineEnds cs with
  | case1 cs ih => simp_all
  | case2 cs _ ih => simp_all
  | case3 d cs _ _ ih => exact List.mem_cons.2 ((List.mem_cons.1 h).imp_right ih)
  | case4 => cases h

theorem mem_of_readWith_error {α : Type} {rule : Nesting → Reader α} {cs : List Char}
    (h : readWith rule cs = .error .nullCharacter) : '\x00' ∈ cs := by
  unfold readWith at h
  split at h
  · rename_i hnull
    exact List.contains_iff_mem.1 hnull
  · split at h
    · cases h
    · split at h <;> cases h

theorem mem_of_readExpr_error {s : String} (h : readExpr s = .error .nullCharacter) :
    '\x00' ∈ s.toList :=
  mem_of_mem_unifyLineEnds (by decide) (mem_of_readWith_error h)

/-- A quoted annotation is read unless it holds a null character, and causes no more than it causes
quoted. -/
theorem meets_readQuoted {span : Span} {s : String} {marked : Bool}
    (h : Expr.CausesOnly S (.node span (.constant (.text s marked)))) :
    Meets (OfNull S) (fun read => ∀ e ∈ read, e.CausesOnly S) (readQuoted s) := by
  cases hread : readQuoted s with
  | ok read =>
    refine .ok fun e he => h.part ?_
    rw [Expr.annotationParts, hread]
    exact Option.mem_toList.2 he
  | error f =>
    unfold readQuoted at hread
    split at hread
    · cases hread
    · cases hread
    · rename_i herror
      cases hread
      have hnull : '\x00' ∈ s.toList := mem_of_mem_strip (mem_of_readExpr_error herror)
      refine .error ⟨rfl, h.own ?_⟩
      simp [Expr.readingFaults, hnull]

/-! ## The class of an annotation -/

theorem Wrapper.typeParts_subset (args : List Expr) (w : Wrapper) : w.typeParts args ⊆ args := by
  have hhead : args.head?.toList ⊆ args := by
    intro e he
    exact List.mem_of_head? (Option.mem_toList.1 he)
  cases w with
  | union =>
    intro e he
    exact List.mem_of_find?_eq_some (Option.mem_toList.1 he)
  | tuple => exact List.Subset.refl _
  | literal | mapping | named | unnamed => exact List.nil_subset _
  | annotated | optional | required | classVar | transparent | array => exact hhead

theorem Wrapper.metadata_subset (args : List Expr) (w : Wrapper) : w.metadata args ⊆ args.tail := by
  cases w with
  | annotated => exact List.Subset.refl _
  | _ => exact List.nil_subset _

/-- What a wrapper makes of its arguments is among what its name makes of them. -/
theorem subset_byWrapper {parts : Wrapper → List Expr} {all : List Expr}
    (h : ∀ w, parts w ⊆ all) {base : Expr} {name : Option String}
    {quoted : String → Except Fault (Option String)} (hname : base.typeNameWith quoted = .ok name) :
    parts (.ofName name) ⊆ byWrapper parts all base := by
  unfold byWrapper
  split
  · cases hname
    exact List.Subset.refl _
  · cases hname
    exact List.Subset.refl _
  · exact h _

theorem typeParts_of_transparent {name : String} (h : transparentWrappers.contains name = true)
    (args : List Expr) : (Wrapper.ofName (some name)).typeParts args = args.head?.toList := by
  simp only [transparentWrappers, List.contains_iff_mem, List.mem_cons, List.not_mem_nil,
    or_false] at h
  rcases h with rfl | rfl | rfl | rfl | rfl | rfl | rfl <;> rfl

theorem firstTypeArgument_cases (index : Expr) :
    (∃ span, index = .node span (.tuple [])) ∨
      (typeArguments index).head? = some (firstTypeArgument index) := by
  obtain ⟨span, form⟩ := index
  cases form with
  | tuple es =>
    cases es with
    | nil => exact .inl ⟨span, rfl⟩
    | cons e es => exact .inr rfl
  | _ => exact .inr rfl

section TypeName

variable {quoted : String → Except Fault (Option String)}

/-- The class of a subscripted name is found, if those of the name and of the parts are found. -/
theorem meets_typeNameWith_subscript {span : Span} {base index : Expr}
    (hbase : Succeeds (OfNull S) (base.typeNameWith quoted))
    (hparts : ∀ e ∈ Expr.annotationParts (.node span (.subscript base index)),
      sizeOf e ≤ sizeOf index → Succeeds (OfNull S) (e.typeNameWith quoted)) :
    Succeeds (OfNull S) (Expr.typeNameWith quoted (.node span (.subscript base index))) := by
  rw [typeNameWith_subscript]
  cases hname : base.typeNameWith quoted with
  | error f => rwa [hname] at hbase
  | ok name =>
    cases name with
    | none => exact succeeds_ok none
    | some name =>
      have hmem := subset_byWrapper (Wrapper.typeParts_subset (typeArguments index)) hname
      simp only [ok_bind]
      by_cases hwrapper : transparentWrappers.contains name = true
      · rw [if_pos hwrapper]
        rw [typeParts_of_transparent hwrapper] at hmem
        rcases firstTypeArgument_cases index with ⟨span', rfl⟩ | hfirst
        · exact succeeds_ok none
        · refine hparts _ (List.mem_cons_of_mem _ (hmem ?_)) (sizeOf_firstTypeArgument_le index)
          rw [hfirst]
          exact List.mem_singleton_self _
      · rw [if_neg hwrapper]
        by_cases hunion : (name == "Union") = true
        · rw [if_pos hunion]
          rw [eq_of_beq hunion] at hmem
          cases hfind : (typeArguments index).find? (!·.isNull) with
          | none => exact succeeds_ok none
          | some e =>
            exact hparts e (List.mem_cons_of_mem _ (hmem (Option.mem_toList.2 hfind)))
              (sizeOf_le_of_mem_typeArguments (List.mem_of_find?_eq_some hfind))
        · rw [if_neg hunion]
          exact succeeds_ok _

/-- The class of an annotation is found, if it is found for the texts in it. -/
theorem meets_typeNameWith
    (hquoted : ∀ span s marked, Expr.CausesOnly S (.node span (.constant (.text s marked))) →
      Succeeds (OfNull S) (quoted s))
    (he : e.CausesOnly S) : Succeeds (OfNull S) (e.typeNameWith quoted) := by
  -- the parts that are read are smaller; a text is not, its reader is assumed to be sound
  induction e using Expr.sizeInduction with
  | step e ih =>
    obtain ⟨span, form⟩ := e
    cases form with
    | constant value =>
      cases value with
      | text s marked => exact hquoted span s marked he
      | _ => exact succeeds_ok none
    | subscript base index =>
      simp only [Expr.node.sizeOf_spec, ExprForm.subscript.sizeOf_spec] at ih
      have hbase := ih base (by omega) (he.part List.mem_cons_self)
      refine meets_typeNameWith_subscript hbase fun e' he' hsize => ?_
      exact ih e' (by omega) (he.part he')
    | binary left op right =>
      simp only [Expr.node.sizeOf_spec, ExprForm.binary.sizeOf_spec] at ih
      cases op with
      | bitOr =>
        rw [Expr.typeNameWith, ExprForm.typeNameWith]
        by_cases hleft : left.isNull = true
        · rw [if_pos hleft]
          by_cases hright : right.isNull = true
          · -- the absent value alone refers to no class
            obtain ⟨span', form'⟩ := right
            unfold Expr.isNull at hright
            split at hright
            · rename_i heq
              cases heq
              exact succeeds_ok none
            · cases hright
          · refine ih right (by omega) (he.part ?_)
            simp [Expr.annotationParts, hleft, hright]
        · rw [if_neg hleft]
          refine ih left (by omega) (he.part ?_)
          simp [Expr.annotationParts, hleft]
      | _ => exact succeeds_ok none
    | _ => exact succeeds_ok _

theorem meets_quotedTypeName {fuel : Nat} {span : Span} {s : String} {marked : Bool}
    (h : Expr.CausesOnly S (.node span (.constant (.text s marked)))) :
    Succeeds (OfNull S) (quotedTypeName fuel s) := by
  induction fuel generalizing span s marked with
  | zero => exact succeeds_ok none
  | succ fuel ih =>
    rw [quotedTypeName]
    refine (meets_readQuoted h).bind fun read hread => ?_
    cases read with
    | none => exact succeeds_ok none
    | some e => exact meets_typeNameWith (fun span s marked h => ih h) (hread e rfl)

/-- The class of an annotation is found unless a quoted annotation in it holds a null character. -/
theorem meets_typeName (he : e.CausesOnly S) : Succeeds (OfNull S) e.typeName :=
  meets_typeNameWith (fun _ _ _ h => meets_quotedTypeName h) he

end TypeName

end RouteLens
