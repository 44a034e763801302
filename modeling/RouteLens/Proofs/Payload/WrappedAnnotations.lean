import RouteLens.Proofs.Payload.FullReading

/-!
# Wrapped annotations

An annotation may be wrapped: in a name that stands for its argument, in a union with the absent
value on either side, in metadata, in quotes, and in any number of these in any order.  A layer is
looked through by both readings.  The class that is named stays the same; and what is said about a
field stays the same, but for the marks that layers set (`Expr.Wrapped.reads_alike`).
-/

namespace RouteLens

section

variable {edition : Nat} [CharacterNames edition]

/-- A layer around an annotation. -/
inductive Layer where
  | optional
  | notRequired
  | required
  | final
  | readOnly
  | annotated
  | unionFirst
  | unionLast
  | eitherFirst
  | eitherLast
  | quoted
  deriving DecidableEq

namespace Layer

/-- The name that is subscripted with nothing but the annotation. -/
def name? : Layer → Option String
  | .optional => some "Optional"
  | .notRequired => some "NotRequired"
  | .required => some "Required"
  | .final => some "Final"
  | .readOnly => some "ReadOnly"
  | _ => none

/-- Whether a layer says that the field may be left out. -/
def makesOptional : Layer → Bool
  | .optional | .notRequired | .unionFirst | .unionLast | .eitherFirst | .eitherLast => true
  | _ => false

/-- Whether a layer says that the field was declared as required. -/
def marksRequired : Layer → Bool
  | .required => true
  | _ => false

/-- A layer around one annotation makes another one.  What is subscripted may be any expression that
refers to the name, and a text in quotes has to be read as the annotation. -/
inductive Wraps : Layer → Expr → Expr → Prop
  | named {l : Layer} {name : String} {span : Span} {base e : Expr} (hname : l.name? = some name)
      (hbase : base.typeName = .ok (some name)) : Wraps l e (.node span (.subscript base e))
  | annotated {span : Span} {base index e : Expr} {metas : List Expr}
      (hbase : base.typeName = .ok (some "Annotated")) (hargs : typeArguments index = e :: metas) :
      Wraps .annotated e (.node span (.subscript base index))
  | unionFirst {span span' : Span} {base e null : Expr} (hbase : base.typeName = .ok (some "Union"))
      (hnull : null.isNull = true) :
      Wraps .unionFirst e (.node span (.subscript base (.node span' (.tuple [e, null]))))
  | unionLast {span span' : Span} {base e null : Expr} (hbase : base.typeName = .ok (some "Union"))
      (hnull : null.isNull = true) :
      Wraps .unionLast e (.node span (.subscript base (.node span' (.tuple [null, e]))))
  | eitherFirst {span : Span} {e null : Expr} (hnull : null.isNull = true) :
      Wraps .eitherFirst e (.node span (.binary e .bitOr null))
  | eitherLast {span : Span} {e null : Expr} (hnull : null.isNull = true) :
      Wraps .eitherLast e (.node span (.binary null .bitOr e))
  | quoted {span : Span} {s : String} {marked : Bool} {e : Expr}
      (hread : readQuoted s = .ok (some e)) :
      Wraps .quoted e (.node span (.constant (.text s marked)))

end Layer

/-- Whether an expression is a tuple. -/
def Expr.isTuple : Expr → Bool
  | .node _ (.tuple _) => true
  | _ => false

/-- An annotation in a stack of layers, the outermost one first. -/
inductive Expr.Wrapped (a : Expr) : List Layer → Expr → Prop
  | bare : Wrapped a [] a
  | layer {l : Layer} {layers : List Layer} {e e' : Expr} (h : Wrapped a layers e)
      (hl : l.Wraps e e') : Wrapped a (l :: layers) e'

/-! ## The class that is named -/

section TypeName

variable {span : Span} {base index left right e : Expr} {name s : String} {marked : Bool}

theorem typeName_looksThrough (hbase : base.typeName = .ok (some name))
    (hname : transparentWrappers.contains name = true) :
    Expr.typeName (.node span (.subscript base index)) = (firstTypeArgument index).typeName := by
  unfold Expr.typeName at hbase ⊢
  rw [typeNameWith_subscript, hbase, ok_bind]
  simp only [if_pos hname]

theorem typeName_unionOf (hbase : base.typeName = .ok (some "Union"))
    (hfind : (typeArguments index).find? (!·.isNull) = some e) :
    Expr.typeName (.node span (.subscript base index)) = e.typeName := by
  have hnot : ¬ transparentWrappers.contains "Union" = true := by decide
  unfold Expr.typeName at hbase ⊢
  rw [typeNameWith_subscript, hbase, ok_bind]
  simp only [if_neg hnot, beq_self_eq_true, if_true, hfind]

theorem typeName_either :
    Expr.typeName (.node span (.binary left .bitOr right)) =
      if left.isNull then right.typeName else left.typeName := rfl

/-- What is quoted names the class that it names by itself. -/
theorem typeName_quoted (hread : readQuoted s = .ok (some e)) :
    Expr.typeName (.node span (.constant (.text s marked))) = e.typeName := by
  obtain ⟨least, hleast⟩ := (Recursion.ends_typeName e).exists_least
  have hrun : Recursion.typeName (least + 1) (.node span (.constant (.text s marked))) =
      some e.typeName := by
    rw [Recursion.typeName, hread]
    exact hleast least le_rfl
  exact Recursion.typeName_of_run hrun

end TypeName

/-! ## One layer -/

theorem typeArguments_of_not_tuple {e : Expr} (h : e.isTuple = false) : typeArguments e = [e] := by
  unfold typeArguments
  split
  · cases h
  · rfl

theorem firstTypeArgument_eq {index e : Expr} {es : List Expr} (h : typeArguments index = e :: es) :
    firstTypeArgument index = e := by
  obtain ⟨span, rfl⟩ | hhead := firstTypeArgument_cases index
  · cases h
  · rw [h] at hhead
    exact (Option.some.inj hhead).symm

namespace Layer

variable {l : Layer} {e e' : Expr}

theorem transparent_of_name {name : String} (h : l.name? = some name) :
    transparentWrappers.contains name = true := by
  cases l <;> cases h <;> decide

/-- What a layer makes is neither a tuple nor the absent value. -/
theorem Wraps.plain (h : l.Wraps e e') : e'.isTuple = false ∧ e'.isNull = false := by
  cases h <;> exact ⟨rfl, rfl⟩

theorem Wraps.typeName_eq (h : l.Wraps e e') (htuple : e.isTuple = false)
    (hnull : e.isNull = false) : e'.typeName = e.typeName := by
  cases h with
  | named hname hbase =>
    rw [typeName_looksThrough hbase (transparent_of_name hname),
      firstTypeArgument_eq (typeArguments_of_not_tuple htuple)]
  | annotated hbase hargs =>
    rw [typeName_looksThrough hbase (by decide), firstTypeArgument_eq hargs]
  | unionFirst hbase hnone => exact typeName_unionOf hbase (by simp [typeArguments, hnull])
  | unionLast hbase hnone => exact typeName_unionOf hbase (by simp [typeArguments, hnone, hnull])
  | eitherFirst hnone => rw [typeName_either, if_neg (by simp [hnull])]
  | eitherLast hnone => rw [typeName_either, if_pos hnone]
  | quoted hread => exact typeName_quoted hread

/-- A layer other than metadata is read as what it holds, with the mark that it sets. -/
theorem Wraps.addType_eq (h : l.Wraps e e') (htuple : e.isTuple = false) (hnull : e.isNull = false)
    (hl : l ≠ .annotated) (t : FieldType) :
    e'.addType t = (e.addType t).map (·.mark l.makesOptional l.marksRequired) := by
  rw [← addType_mark]
  cases h with
  | named hname hbase =>
    rw [addType_subscript hbase (typeArguments_of_not_tuple htuple)]
    cases l <;> cases hname
    · exact congrArg e.addType (FieldType.mark_optional t).symm
    · exact congrArg e.addType (FieldType.mark_optional t).symm
    · exact congrArg e.addType (FieldType.mark_required t).symm
    · exact congrArg e.addType (FieldType.mark_false t).symm
    · exact congrArg e.addType (FieldType.mark_false t).symm
  | annotated hbase hargs => exact absurd rfl hl
  | unionFirst hbase hnone =>
    rw [addType_union hbase (by simp [typeArguments])]
    simp [addMembers, typeArguments, hnone, hnull, makesOptional, marksRequired]
  | unionLast hbase hnone =>
    rw [addType_union hbase (by simp [typeArguments])]
    simp [addMembers, typeArguments, hnone, hnull, makesOptional, marksRequired]
  | eitherFirst hnone =>
    rw [addType_either]
    simp [addMembers, hnone, hnull, makesOptional, marksRequired]
  | eitherLast hnone =>
    rw [addType_either]
    simp [addMembers, hnone, hnull, makesOptional, marksRequired]
  | quoted hread =>
    rw [addType_quoted hread]
    exact congrArg e.addType (FieldType.mark_false t).symm

end Layer

/-! ## Stacks of layers -/

namespace Expr

variable {a e : Expr} {layers : List Layer}

theorem Wrapped.plain (h : a.Wrapped layers e) (htuple : a.isTuple = false)
    (hnull : a.isNull = false) : e.isTuple = false ∧ e.isNull = false := by
  cases h with
  | bare => exact ⟨htuple, hnull⟩
  | layer h hl => exact hl.plain

theorem Wrapped.typeName_eq (h : a.Wrapped layers e) (htuple : a.isTuple = false)
    (hnull : a.isNull = false) : e.typeName = a.typeName := by
  induction h with
  | bare => rfl
  | layer h hl ih =>
    obtain ⟨htuple', hnull'⟩ := h.plain htuple hnull
    exact (hl.typeName_eq htuple' hnull').trans ih

/-- The marks of the layers come together. -/
theorem Wrapped.addType_eq (h : a.Wrapped layers e) (htuple : a.isTuple = false)
    (hnull : a.isNull = false) (hlayers : .annotated ∉ layers) (t : FieldType) :
    e.addType t = (a.addType t).map
      (·.mark (layers.any Layer.makesOptional) (layers.any Layer.marksRequired)) := by
  induction h with
  | bare =>
    cases a.addType t with
    | error f => rfl
    | ok u => exact congrArg Except.ok (FieldType.mark_false u).symm
  | @layer l layers e e' h hl ih =>
    obtain ⟨htuple', hnull'⟩ := h.plain htuple hnull
    obtain ⟨hne, hrest⟩ := List.ne_and_not_mem_of_not_mem_cons hlayers
    rw [hl.addType_eq htuple' hnull' (Ne.symm hne), ih hrest]
    cases a.addType t with
    | error f => rfl
    | ok u =>
      simp only [map_ok, FieldType.mark_mark, List.any_cons]
      rw [Bool.or_comm, Bool.or_comm (layers.any Layer.marksRequired)]

/-- An annotation that is neither a tuple nor the absent value is read alike in any stack of layers.
It names the same class.  And if there is no metadata among the layers, it says the same about a
field of which anything may be known before, or fails alike, but that the field is marked as one
that may be left out if a layer says so, and as required if a layer says that. -/
theorem Wrapped.reads_alike (h : a.Wrapped layers e) (htuple : a.isTuple = false)
    (hnull : a.isNull = false) :
    e.typeName = a.typeName ∧
      (.annotated ∉ layers → ∀ t, e.addType t = (a.addType t).map
        (·.mark (layers.any Layer.makesOptional) (layers.any Layer.marksRequired))) :=
  ⟨h.typeName_eq htuple hnull, h.addType_eq htuple hnull⟩

/-- A name by itself. -/
def named (id : String) : Expr :=
  .node default (.name id)

/-- The annotation `Optional[Required[None | "Item"]]`. -/
def wrappedItem : Expr :=
  .node default (.subscript (named "Optional") (.node default (.subscript (named "Required")
    (.node default (.binary (.node default (.constant .null)) .bitOr
      (.node default (.constant (.text "Item" false))))))))

end Expr

end

namespace Expr

/-- Behind four layers stands the class that is quoted, of a field that is marked twice. -/
theorem Wrapped.reads_alike_wrappedItem :
    ∃ a : Expr, a.Wrapped [.optional, .required, .eitherLast, .quoted] wrappedItem ∧
      a.isTuple = false ∧ a.isNull = false ∧ wrappedItem.typeName = .ok (some "Item") ∧
      ∃ t, wrappedItem.addType (.unknown "") = .ok t ∧ t.facts.classRef = some "Item" ∧
        t.facts.optional = true ∧ t.facts.requiredMarker = true := by
  have hchecked : ((readQuoted "Item").toOption.join.any fun a =>
      !a.isTuple && !a.isNull && decide (a.typeName = .ok (some "Item")) &&
        (a.addType (.unknown "")).toOption.any
          fun t => decide (t.facts.classRef = some "Item")) = true := by decide +kernel
  obtain ⟨a, hread, hchecked⟩ := (Option.any_eq_true _ _).1 hchecked
  simp only [Bool.and_eq_true, decide_eq_true_eq, Bool.not_eq_true'] at hchecked
  obtain ⟨⟨⟨htuple, hnull⟩, hname⟩, hadd⟩ := hchecked
  obtain ⟨u, hu, hclass⟩ := exists_ok_of_any hadd
  have hquoted : readQuoted "Item" = .ok (some a) := by
    cases hresult : readQuoted "Item" with
    | error f => rw [hresult] at hread; cases hread
    | ok read =>
      rw [hresult] at hread
      exact congrArg Except.ok hread
  have hwrapped : a.Wrapped [.optional, .required, .eitherLast, .quoted] wrappedItem :=
    (((Wrapped.bare.layer (.quoted hquoted)).layer (.eitherLast rfl)).layer
      (.named rfl rfl)).layer (.named rfl rfl)
  obtain ⟨hsame, hmarks⟩ := hwrapped.reads_alike htuple hnull
  refine ⟨a, hwrapped, htuple, hnull, hsame.trans hname, u.mark true true, ?_, ?_, ?_, ?_⟩
  · rw [hmarks (by decide), hu]
    rfl
  · rw [FieldType.facts_mark]
    exact of_decide_eq_true hclass
  · simp [Recursion.marking]
  · simp [Recursion.marking]

end Expr

end RouteLens
