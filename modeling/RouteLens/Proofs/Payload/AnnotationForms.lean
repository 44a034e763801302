import RouteLens.Payload.Annotation

/-!
# Annotations, form by form

What the readers of annotations make of a form, put in terms of the arguments of a subscription and
of the first member that is not the absent value.
-/

namespace RouteLens

variable {edition : Nat} [CharacterNames edition]

/-! ## The class of an annotation -/

theorem firstMemberName_eq (quoted : String → Except Fault (Option String)) (es : List Expr) :
    firstMemberName quoted es =
      match es.find? (!·.isNull) with
      | none => .ok none
      | some e => e.typeNameWith quoted := by
  induction es with
  | nil => rfl
  | cons e es ih =>
    rw [firstMemberName, List.find?_cons]
    cases e.isNull <;> simp [ih]

/-- A subscript names the class of its first argument behind a transparent wrapper, the first member
of a union that is not null, and its own base otherwise. -/
theorem typeNameWith_subscript (quoted : String → Except Fault (Option String))
    (span : Span) (value index : Expr) :
    Expr.typeNameWith quoted (.node span (.subscript value index)) = do
      match ← value.typeNameWith quoted with
      | none => return none
      | some name =>
        if transparentWrappers.contains name then (firstTypeArgument index).typeNameWith quoted
        else if name == "Union" then
          match (typeArguments index).find? (!·.isNull) with
          | none => return none
          | some e => e.typeNameWith quoted
        else return some name := by
  obtain ⟨span', form⟩ := index
  have hsingle (e : Expr) : (if e.isNull then .ok none else e.typeNameWith quoted) =
      firstMemberName quoted [e] := rfl
  cases form with
  | tuple es =>
    cases es with
    | nil =>
      rw [Expr.typeNameWith, ExprForm.typeNameWith]
      · rfl
      · nofun
    | cons e es =>
      rw [Expr.typeNameWith, ExprForm.typeNameWith]
      refine bind_congr fun name => ?_
      cases name with
      | none => rfl
      | some name => simp only [firstTypeArgument, typeArguments, firstMemberName_eq, pure_eq_ok]
  | _ =>
    rw [Expr.typeNameWith, ExprForm.typeNameWith]
    · refine bind_congr fun name => ?_
      cases name with
      | none => rfl
      | some name =>
        simp only [firstTypeArgument, typeArguments, hsingle, firstMemberName_eq, pure_eq_ok]
    all_goals nofun

/-! ## Field types -/

theorem firstMemberType_eq (quoted : QuotedReader) (es : List Expr) (t : FieldType) :
    firstMemberType quoted es t =
      match es.find? (!·.isNull) with
      | none => .ok t
      | some e => e.readType quoted t := by
  induction es with
  | nil => rfl
  | cons e es ih =>
    rw [firstMemberType, List.find?_cons]
    cases e.isNull <;> simp [ih]

theorem readType_union (quoted : QuotedReader) (span : Span) (left right : Expr) (t : FieldType) :
    Expr.readType quoted (.node span (.binary left .bitOr right)) t =
      let t := if left.isNull || right.isNull then t.mapFacts ({ · with optional := true }) else t
      match [left, right].find? (!·.isNull) with
      | none => .ok t
      | some e => e.readType quoted t := by
  rw [Expr.readType, ExprForm.readType]
  cases hleft : left.isNull <;> cases hright : right.isNull <;> simp [hleft, hright]

theorem elementTypes_eq (quoted : QuotedReader) (es : List Expr) :
    elementTypes quoted es = es.map (·.readElement quoted) := by
  induction es with
  | nil => rfl
  | cons e es ih => rw [elementTypes, ih, List.map_cons]

/-- The annotation given by the last keyword argument that gives the type of elements. -/
def itemTypeExpr? (keywords : List Keyword) : Option Expr :=
  (keywords.filter (·.name == some "item_type")).getLast?.map Keyword.value

theorem itemType?_eq (quoted : QuotedReader) (ks : List Keyword) :
    itemType? quoted ks =
      (itemTypeExpr? ks).map (·.readElement quoted) := by
  induction ks with
  | nil => rfl
  | cons k ks ih =>
    obtain ⟨span, name, value⟩ := k
    rw [itemType?, ih, itemTypeExpr?, itemTypeExpr?, List.filter_cons, Keyword.name]
    by_cases hname : (name == some "item_type") = true
    · rw [if_pos hname, if_pos hname, List.getLast?_cons]
      cases (ks.filter (·.name == some "item_type")).getLast? <;> rfl
    · rw [if_neg hname, if_neg hname]
      cases (ks.filter (·.name == some "item_type")).getLast? <;> rfl

/-- A call is read as a constrained type, an array of constrained size or a date, if it is one. -/
theorem readType_call (quoted : QuotedReader) (func : Expr) (args : List Expr)
    (keywords : List Keyword) (t : FieldType) :
    ExprForm.readType quoted (.call func args keywords) t =
      let name := func.terminalName?.getD ""
      match constrainedKind? name with
      | some kind => t.learn fun f => { f with kind := some kind }.constrainAll keywords
      | none =>
        if isArrayCall name then
          let t := t.mapFacts ({ · with isArray := true })
          let t := t.withElement (args.head?.map (·.readElement quoted))
          let t := t.withElement ((itemTypeExpr? keywords).map (·.readElement quoted))
          t.learn (·.constrainAll keywords)
        else if name == "condate" then .ok (t.mapFacts ({ · with format := some .date }))
        else .ok t := by
  rw [ExprForm.readType.eq_def]
  simp only [← itemType?_eq]
  cases args <;> rfl

/-- A subscript is read as the wrapper that its base names. -/
theorem readType_subscript (quoted : QuotedReader) (span : Span) (base index : Expr)
    (t : FieldType) :
    Expr.readType quoted (.node span (.subscript base index)) t = (do
      let name ← base.typeName
      match typeArguments index with
      | [] => return t.mapFacts ({ · with classRef := name })
      | first :: rest =>
        (Wrapper.ofName name).read (first :: rest) (first.readType quoted)
          (fun t =>
            match (first :: rest).find? (!·.isNull) with
            | none => .ok t
            | some e => e.readType quoted t)
          (fun _ => (first :: rest).map (·.readElement quoted)) t) := by
  obtain ⟨span', form⟩ := index
  cases form with
  | tuple es =>
    cases es with
    | nil => rfl
    | cons e es =>
      rw [Expr.readType, ExprForm.readType]
      simp only [typeArguments, elementTypes_eq, List.map_cons, ← firstMemberType_eq]
      rfl
  | _ =>
    rw [Expr.readType, ExprForm.readType]
    · simp only [typeArguments, ← firstMemberType_eq, List.map_cons, List.map_nil]
      rfl
    all_goals nofun

end RouteLens
