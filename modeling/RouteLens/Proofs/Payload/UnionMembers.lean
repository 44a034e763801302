import RouteLens.Proofs.Payload.WrappedAnnotations

/-!
# Unions and their members

A union is written with bars, as a subscripted name or as one with the absent value, and unions nest
in all of these.  Its members are those of the unions in it (`Expr.HasMember`).  Reading a union
goes down to its first member, and from there to the first member of that one.  The absent value is
met on this way if it stands beside a member that is read (`Expr.ShowsNull`), and passed by if it
stands in a union that comes later (`Expr.HidesNull`).  A field may be left out in the first case,
whatever the order and the nesting; so two spellings of a union agree, unless one of them hides the
absent value (`PropertyDecl.isRequired_of_unions`).
-/

namespace RouteLens

section

variable {edition : Nat} [CharacterNames edition]

namespace Expr

/-- The members of a union as they are written, and whether the absent value is one more. -/
inductive Joins : Expr → List Expr → Bool → Prop
  | either {span : Span} {left right : Expr} :
      Joins (.node span (.binary left .bitOr right)) [left, right] false
  | union {span : Span} {base index : Expr} (hbase : base.typeName = .ok (some "Union"))
      (hne : typeArguments index ≠ []) :
      Joins (.node span (.subscript base index)) (typeArguments index) false
  | optional {span : Span} {base index e : Expr} (hbase : base.typeName = .ok (some "Optional"))
      (hargs : typeArguments index = [e]) : Joins (.node span (.subscript base index)) [e] true

/-- The members of an annotation, those of a union in it among them; `none` is the absent value. -/
inductive HasMember : Expr → Option Expr → Prop
  | null {e : Expr} (h : e.isNull = true) : HasMember e none
  | type {e : Expr} (h : e.isNull = false) (hjoins : ∀ ms adds, ¬ e.Joins ms adds) :
      HasMember e (some e)
  | added {e : Expr} {ms : List Expr} (h : e.Joins ms true) : HasMember e none
  | nested {e m : Expr} {ms : List Expr} {adds : Bool} {x : Option Expr} (h : e.Joins ms adds)
      (hm : m ∈ ms) (hx : HasMember m x) : HasMember e x

/-- The member that a union is read as. -/
def firstMember? (ms : List Expr) : Option Expr :=
  ms.find? (!·.isNull)

/-- The absent value is met on the way along the first members. -/
inductive ShowsNull : Expr → Prop
  | added {e : Expr} {ms : List Expr} (h : e.Joins ms true) : ShowsNull e
  | beside {e m : Expr} {ms : List Expr} {adds : Bool} (h : e.Joins ms adds) (hm : m ∈ ms)
      (hnull : m.isNull = true) : ShowsNull e
  | first {e m : Expr} {ms : List Expr} {adds : Bool} (h : e.Joins ms adds)
      (hm : firstMember? ms = some m) (hshows : ShowsNull m) : ShowsNull e

/-- The absent value stands in a union that is not on the way along the first members. -/
inductive HidesNull : Expr → Prop
  | later {e m : Expr} {ms : List Expr} {adds : Bool} (h : e.Joins ms adds) (hm : m ∈ ms)
      (hlater : firstMember? ms ≠ some m) (hnull : m.isNull = false) (hin : m.HasMember none) :
      HidesNull e
  | first {e m : Expr} {ms : List Expr} {adds : Bool} (h : e.Joins ms adds)
      (hm : firstMember? ms = some m) (hhides : HidesNull m) : HidesNull e

/-- A type that can be read and says nothing about whether a field is given. -/
def IsPlainType (e : Expr) : Prop :=
  ∀ t, ∃ t', e.addType t = .ok t' ∧ t'.facts.skip = t.facts.skip ∧
    t'.facts.requiredMarker = t.facts.requiredMarker ∧ t'.facts.optional = t.facts.optional

/-- A union of plain types and maybe the absent value. -/
structure IsPlainUnion (e : Expr) : Prop where
  joins : ∃ ms adds, e.Joins ms adds
  plain : ∀ x, e.HasMember (some x) → x.IsPlainType

variable {e m : Expr} {ms ms' : List Expr} {adds adds' : Bool}

/-! ## Members -/

theorem Joins.isNull_eq (h : e.Joins ms adds) : e.isNull = false := by
  cases h <;> rfl

theorem Joins.unique (h : e.Joins ms adds) (h' : e.Joins ms' adds') : ms = ms' ∧ adds = adds' := by
  cases h with
  | either => cases h'; exact ⟨rfl, rfl⟩
  | union hbase hne =>
    cases h' with
    | union => exact ⟨rfl, rfl⟩
    | optional hbase' => simp [hbase] at hbase'
  | optional hbase hargs =>
    cases h' with
    | union hbase' => simp [hbase] at hbase'
    | optional hbase' hargs' =>
      rw [hargs] at hargs'
      exact ⟨hargs', rfl⟩

theorem Joins.sizeOf_lt (h : e.Joins ms adds) (hm : m ∈ ms) : sizeOf m < sizeOf e := by
  cases h with
  | either =>
    simp only [Expr.node.sizeOf_spec, ExprForm.binary.sizeOf_spec]
    obtain rfl | rfl : m = _ ∨ m = _ := by simpa using hm
    · omega
    · omega
  | union hbase hne =>
    have hle := sizeOf_le_of_mem_typeArguments hm
    simp only [Expr.node.sizeOf_spec, ExprForm.subscript.sizeOf_spec]
    omega
  | optional hbase hargs =>
    rw [← hargs] at hm
    have hle := sizeOf_le_of_mem_typeArguments hm
    simp only [Expr.node.sizeOf_spec, ExprForm.subscript.sizeOf_spec]
    omega

theorem mem_of_firstMember? (h : firstMember? ms = some m) : m ∈ ms ∧ m.isNull = false :=
  ⟨List.mem_of_find?_eq_some h, by simpa using List.find?_some h⟩

theorem exists_joins_of_hasNull (h : e.HasMember none) (hnull : e.isNull = false) :
    ∃ ms adds, e.Joins ms adds := by
  cases h with
  | null hnull' => rw [hnull] at hnull'; cases hnull'
  | added hjoins => exact ⟨_, _, hjoins⟩
  | nested hjoins hm hx => exact ⟨_, _, hjoins⟩

theorem ShowsNull.hasMember (h : e.ShowsNull) : e.HasMember none := by
  induction h with
  | added h => exact .added h
  | beside h hm hnull => exact .nested h hm (.null hnull)
  | first h hm _ ih => exact .nested h (mem_of_firstMember? hm).1 ih

theorem HidesNull.hasMember (h : e.HidesNull) : e.HasMember none := by
  induction h with
  | later h hm _ _ hin => exact .nested h hm hin
  | first h hm _ ih => exact .nested h (mem_of_firstMember? hm).1 ih

/-- The absent value is a member of a union if it is met or passed by, and only then. -/
theorem Joins.hasNull_iff (h : e.Joins ms adds) :
    e.HasMember none ↔ e.ShowsNull ∨ e.HidesNull := by
  constructor
  · intro hin
    induction e using Expr.sizeInduction generalizing ms adds with
    | step e ih =>
      cases hin with
      | null hnull => rw [h.isNull_eq] at hnull; cases hnull
      | added hjoins => exact .inl (.added hjoins)
      | @nested _ m members _ _ hjoins hm hx =>
        cases hnull : m.isNull with
        | true => exact .inl (.beside hjoins hm hnull)
        | false =>
          by_cases hfirst : firstMember? members = some m
          · obtain ⟨ms', adds', hjoins'⟩ := exists_joins_of_hasNull hx hnull
            rcases ih m (hjoins.sizeOf_lt hm) hjoins' hx with hshows | hhides
            · exact .inl (.first hjoins hfirst hshows)
            · exact .inr (.first hjoins hfirst hhides)
          · exact .inr (.later hjoins hm hfirst hnull hx)
  · rintro (hshows | hhides)
    · exact hshows.hasMember
    · exact hhides.hasMember

/-- Where the absent value is met, from one union to the next. -/
theorem Joins.showsNull_iff (h : e.Joins ms adds) :
    e.ShowsNull ↔ (adds || ms.any Expr.isNull) = true ∨
      ∃ m, firstMember? ms = some m ∧ m.ShowsNull := by
  rw [Bool.or_eq_true, List.any_eq_true]
  constructor
  · intro hshows
    cases hshows with
    | added h' =>
      obtain ⟨rfl, rfl⟩ := h.unique h'
      exact .inl (.inl rfl)
    | beside h' hm hnull =>
      obtain ⟨rfl, rfl⟩ := h.unique h'
      exact .inl (.inr ⟨_, hm, hnull⟩)
    | first h' hm hshows =>
      obtain ⟨rfl, rfl⟩ := h.unique h'
      exact .inr ⟨_, hm, hshows⟩
  · rintro ((rfl | ⟨m, hm, hnull⟩) | ⟨m, hm, hshows⟩)
    · exact .added h
    · exact .beside h hm hnull
    · exact .first h hm hshows

/-! ## Reading -/

/-- A union is read as its first member; the field is marked if the absent value stands beside it.
-/
theorem Joins.addType_eq (h : e.Joins ms adds) (t : FieldType) :
    e.addType t =
      (firstMember? ms).elim .ok Expr.addType (t.mark (adds || ms.any Expr.isNull) false) := by
  cases h with
  | either =>
    rw [addType_either]
    rfl
  | union hbase hne =>
    rw [addType_union hbase hne]
    rfl
  | @optional _ _ _ e hbase hargs =>
    rw [addType_subscript hbase hargs]
    simp only [Bool.true_or, FieldType.mark_optional]
    cases hnull : e.isNull with
    | false =>
      simp only [firstMember?, List.find?_cons, hnull, Bool.not_false]
      rfl
    | true =>
      simp only [firstMember?, List.find?_cons, hnull, Bool.not_true, List.find?_nil]
      exact addType_null hnull _

/-- A union makes a field optional exactly if a member is null, and changes no other mark. -/
theorem addType_union_marks (hplain : ∀ x, e.HasMember (some x) → x.IsPlainType) (t : FieldType) :
    ∃ t', e.addType t = .ok t' ∧ t'.facts.skip = t.facts.skip ∧
      t'.facts.requiredMarker = t.facts.requiredMarker ∧
      (t'.facts.optional = true ↔ t.facts.optional = true ∨ e.ShowsNull) := by
  -- the way along the first members goes down from one union to the next
  induction e using Expr.sizeInduction generalizing t with
  | step e ih =>
    by_cases hjoins : ∃ ms adds, e.Joins ms adds
    · obtain ⟨ms, adds, h⟩ := hjoins
      rw [h.addType_eq, h.showsNull_iff]
      cases hfirst : firstMember? ms with
      | none =>
        refine ⟨_, rfl, ?_, ?_, ?_⟩
        · simp [Recursion.marking]
        · simp [Recursion.marking]
        · simp [Recursion.marking]
      | some m =>
        have hm := (mem_of_firstMember? hfirst).1
        obtain ⟨t', ht', hskip, hrequired, hoptional⟩ :=
          ih m (h.sizeOf_lt hm) (fun x hx => hplain x (.nested h hm hx))
            (t.mark (adds || ms.any Expr.isNull) false)
        refine ⟨t', ht', ?_, ?_, ?_⟩
        · simpa [Recursion.marking] using hskip
        · simpa [Recursion.marking] using hrequired
        · simpa [Recursion.marking, or_assoc] using hoptional
    · have hnot : ¬ e.ShowsNull := by
        intro hshows
        cases hshows with
        | added h => exact hjoins ⟨_, _, h⟩
        | beside h => exact hjoins ⟨_, _, h⟩
        | first h => exact hjoins ⟨_, _, h⟩
      cases hnull : e.isNull with
      | true => exact ⟨t, addType_null hnull t, rfl, rfl, by simp [hnot]⟩
      | false =>
        have htype : e.HasMember (some e) :=
          .type hnull fun ms adds h => hjoins ⟨ms, adds, h⟩
        obtain ⟨t', ht', hskip, hrequired, hoptional⟩ := hplain e htype t
        exact ⟨t', ht', hskip, hrequired, by simp [hoptional, hnot]⟩

end Expr

/-! ## Fields -/

/-- A field without a value whose annotation is a union may be left out if the absent value is met
in it; it has to be given otherwise, in a class that requires its fields. -/
theorem PropertyDecl.exists_fieldType_of_union {p : PropertyDecl} (h : p.typeExpr.IsPlainUnion)
    (hp : p.value = none) :
    ∃ t, p.fieldType = .ok t ∧ (t.facts.optional = true ↔ p.typeExpr.ShowsNull) ∧
      ∀ total, PayloadRules.isRequired total t.facts = true ↔
        total = true ∧ ¬ p.typeExpr.ShowsNull := by
  obtain ⟨t, ht, hskip, hrequired, hoptional⟩ :=
    Expr.addType_union_marks h.plain (.unknown p.typeExpr.print)
  have hskip : t.facts.skip = false := hskip
  have hrequired : t.facts.requiredMarker = false := hrequired
  have hshows : t.facts.optional = true ↔ p.typeExpr.ShowsNull := by
    simpa [FieldType.unknown, FieldType.facts] using hoptional
  refine ⟨t, ?_, hshows, fun total => ?_⟩
  · rw [PropertyDecl.fieldType, ofTypeExpr_eq_addType, ht, ok_bind, hp]
    rfl
  · rw [← hshows, PayloadRules.isRequired, hskip, hrequired]
    cases t.facts.optional <;> simp

/-- Two fields without values whose annotations are unions of plain types.  A field may be left out
if the absent value is met on the way along the first members of its union.  The absent value is a
member of the union if it is met or passed by; so where it is not passed by, or met as well, the
field may be left out exactly if the absent value is among the members.  Then the two fields are
left out of payloads alike if the absent value is a member of both unions or of none, however they
are written. -/
theorem PropertyDecl.isRequired_of_unions {p p' : PropertyDecl} (h : p.typeExpr.IsPlainUnion)
    (h' : p'.typeExpr.IsPlainUnion) (hp : p.value = none) (hp' : p'.value = none) :
    ∃ t t', p.fieldType = .ok t ∧ p'.fieldType = .ok t' ∧
      (t.facts.optional = true ↔ p.typeExpr.ShowsNull) ∧
      (p.typeExpr.HasMember none ↔ p.typeExpr.ShowsNull ∨ p.typeExpr.HidesNull) ∧
      ((p.typeExpr.HidesNull → p.typeExpr.ShowsNull) →
        (t.facts.optional = true ↔ p.typeExpr.HasMember none) ∧
        ((p'.typeExpr.HidesNull → p'.typeExpr.ShowsNull) →
          (p.typeExpr.HasMember none ↔ p'.typeExpr.HasMember none) →
          ∀ total, PayloadRules.isRequired total t.facts =
            PayloadRules.isRequired total t'.facts)) := by
  obtain ⟨t, ht, hoptional, hrequired⟩ := exists_fieldType_of_union h hp
  obtain ⟨t', ht', hoptional', hrequired'⟩ := exists_fieldType_of_union h' hp'
  obtain ⟨ms, adds, hjoins⟩ := h.joins
  obtain ⟨ms', adds', hjoins'⟩ := h'.joins
  have hin := hjoins.hasNull_iff
  have hin' := hjoins'.hasNull_iff
  refine ⟨t, t', ht, ht', hoptional, hin, fun hmet => ?_⟩
  have hshows : p.typeExpr.ShowsNull ↔ p.typeExpr.HasMember none := by
    rw [hin]
    exact ⟨.inl, fun h => h.elim id hmet⟩
  refine ⟨hoptional.trans hshows, fun hmet' hsame total => ?_⟩
  have hshows' : p'.typeExpr.ShowsNull ↔ p'.typeExpr.HasMember none := by
    rw [hin']
    exact ⟨.inl, fun h => h.elim id hmet'⟩
  rw [Bool.eq_iff_iff, hrequired, hrequired', hshows, hshows', hsame]

/-! ## Spellings -/

namespace Expr

variable {e : Expr} {ms : List Expr} {adds : Bool} {x : Option Expr}

/-- The members of a union are those of what it joins, and the absent value if that is added. -/
theorem Joins.hasMember_iff (h : e.Joins ms adds) :
    e.HasMember x ↔ (adds = true ∧ x = none) ∨ ∃ m ∈ ms, m.HasMember x := by
  constructor
  · intro hin
    cases hin with
    | null hnull => rw [h.isNull_eq] at hnull; cases hnull
    | type _ hjoins => exact absurd h (hjoins ms adds)
    | added h' =>
      obtain ⟨rfl, rfl⟩ := h.unique h'
      exact .inl ⟨rfl, rfl⟩
    | nested h' hm hx =>
      obtain ⟨rfl, rfl⟩ := h.unique h'
      exact .inr ⟨_, hm, hx⟩
  · rintro (⟨rfl, rfl⟩ | ⟨m, hm, hx⟩)
    · exact .added h
    · exact .nested h hm hx

theorem hasMember_named {id : String} : (named id).HasMember x ↔ x = some (named id) := by
  have hjoins (ms : List Expr) (adds : Bool) : ¬ (named id).Joins ms adds := by
    intro h
    cases h
  constructor
  · intro hin
    cases hin with
    | null hnull => cases hnull
    | type => rfl
    | added h => exact absurd h (hjoins _ _)
    | nested h => exact absurd h (hjoins _ _)
  · rintro rfl
    exact .type rfl hjoins

/-- A name says nothing about whether a field is given. -/
theorem isPlainType_named (id : String) : (named id).IsPlainType := by
  -- bounds that a name implies are all that it may change besides what the field is
  have htighten (u : FieldFacts) (side : Side) (v : Value) :
      (u.tighten side v false).skip = u.skip ∧
        (u.tighten side v false).requiredMarker = u.requiredMarker ∧
        (u.tighten side v false).optional = u.optional := by
    rcases u.tighten_eq side v false with h | ⟨q, x, h⟩ <;> rw [h]
    · exact ⟨rfl, rfl, rfl⟩
    · cases side <;> exact ⟨rfl, rfl, rfl⟩
  intro t
  refine ⟨t.mapFacts (·.applyTypeName id), rfl, ?_⟩
  rw [FieldType.facts_mapFacts]
  unfold FieldFacts.applyTypeName
  split
  · exact ⟨rfl, rfl, rfl⟩
  · simp only
    split <;> split <;> simp [FieldFacts.raiseMinimum, FieldFacts.lowerMaximum, htighten]
  · split_ifs <;> exact ⟨rfl, rfl, rfl⟩

/-- The absent value. -/
def absent : Expr :=
  .node default (.constant .null)

theorem hasMember_absent : absent.HasMember x ↔ x = none := by
  constructor
  · intro hin
    cases hin with
    | null => rfl
    | type hnull => cases hnull
    | added h => cases h
    | nested h => cases h
  · rintro rfl
    exact .null rfl

/-- Two annotations joined by a bar. -/
def bar (left right : Expr) : Expr :=
  .node default (.binary left .bitOr right)

theorem joins_bar (left right : Expr) : (bar left right).Joins [left, right] false :=
  .either

/-- The annotation `(int | str) | None`. -/
def chainedUnion : Expr :=
  bar (bar (named "int") (named "str")) absent

/-- The annotation `Union[None, str, int]`. -/
def listedUnion : Expr :=
  .node default (.subscript (named "Union")
    (.node default (.tuple [absent, named "str", named "int"])))

/-- The annotation `int | (str | None)`. -/
def nestedUnion : Expr :=
  bar (named "int") (bar (named "str") absent)

theorem joins_listed : listedUnion.Joins [absent, named "str", named "int"] false :=
  .union rfl (by simp [typeArguments])

theorem hasMember_chained :
    chainedUnion.HasMember x ↔ x = some (named "int") ∨ x = some (named "str") ∨ x = none := by
  simp [chainedUnion, (joins_bar _ _).hasMember_iff, hasMember_named, hasMember_absent, or_assoc]

theorem hasMember_listed :
    listedUnion.HasMember x ↔ x = some (named "int") ∨ x = some (named "str") ∨ x = none := by
  simp [joins_listed.hasMember_iff, hasMember_named, hasMember_absent]
  tauto

theorem hasMember_nested :
    nestedUnion.HasMember x ↔ x = some (named "int") ∨ x = some (named "str") ∨ x = none := by
  simp [nestedUnion, (joins_bar _ _).hasMember_iff, hasMember_named, hasMember_absent]

theorem isPlainUnion_of_hasMember (hjoins : e.Joins ms adds)
    (h : ∀ x, e.HasMember x ↔ x = some (named "int") ∨ x = some (named "str") ∨ x = none) :
    e.IsPlainUnion := by
  refine ⟨⟨ms, adds, hjoins⟩, fun x hx => ?_⟩
  rcases (h _).1 hx with hx | hx | hx <;> cases hx
  · exact isPlainType_named "int"
  · exact isPlainType_named "str"

end Expr

/-- A field with an annotation and no value. -/
def fieldOf (e : Expr) : PropertyDecl :=
  { openRange with name := "size", typeExpr := e, value := none }

end

/-- A chain of bars and a list in another order: both fields are left out. -/
theorem PropertyDecl.isRequired_of_unions_reordered :
    (fieldOf .chainedUnion).typeExpr.IsPlainUnion ∧ (fieldOf .listedUnion).typeExpr.IsPlainUnion ∧
      ∃ t t', (fieldOf .chainedUnion).fieldType = .ok t ∧
        (fieldOf .listedUnion).fieldType = .ok t' ∧ t.facts.optional = true ∧
        ∀ total, PayloadRules.isRequired total t.facts =
          PayloadRules.isRequired total t'.facts := by
  have hchained : Expr.chainedUnion.IsPlainUnion :=
    Expr.isPlainUnion_of_hasMember (Expr.joins_bar _ _) fun _ => Expr.hasMember_chained
  have hlisted : Expr.listedUnion.IsPlainUnion :=
    Expr.isPlainUnion_of_hasMember Expr.joins_listed fun _ => Expr.hasMember_listed
  have hmet : Expr.chainedUnion.ShowsNull :=
    .beside (Expr.joins_bar _ _) (m := Expr.absent) (by simp) rfl
  have hmet' : Expr.listedUnion.ShowsNull :=
    .beside Expr.joins_listed (m := Expr.absent) (by simp) rfl
  obtain ⟨t, t', ht, ht', hoptional, -, hrest⟩ :=
    @isRequired_of_unions _ _ (fieldOf .chainedUnion) (fieldOf .listedUnion) hchained hlisted
      rfl rfl
  obtain ⟨-, halike⟩ := hrest fun _ => hmet
  refine ⟨hchained, hlisted, t, t', ht, ht', hoptional.2 hmet, halike (fun _ => hmet') ?_⟩
  exact Expr.hasMember_chained.trans Expr.hasMember_listed.symm

/-- The same members, but the absent value is passed by: this field has to be given. -/
theorem PropertyDecl.isRequired_of_nested_union :
    (∀ x, Expr.nestedUnion.HasMember x ↔ Expr.chainedUnion.HasMember x) ∧
      Expr.nestedUnion.HasMember none ∧
      ∃ t t', (fieldOf .nestedUnion).fieldType = .ok t ∧
        (fieldOf .chainedUnion).fieldType = .ok t' ∧
        t.facts.optional = false ∧ t'.facts.optional = true ∧
        PayloadRules.isRequired true t.facts = true ∧
        PayloadRules.isRequired true t'.facts = false := by
  refine ⟨fun x => Expr.hasMember_nested.trans Expr.hasMember_chained.symm,
    Expr.hasMember_nested.2 (.inr (.inr rfl)), ?_⟩
  have hnested : ((fieldOf .nestedUnion).fieldType.toOption.any fun t =>
      !t.facts.optional && PayloadRules.isRequired true t.facts) = true := by decide +kernel
  have hchained : ((fieldOf .chainedUnion).fieldType.toOption.any fun t =>
      t.facts.optional && !PayloadRules.isRequired true t.facts) = true := by decide +kernel
  obtain ⟨t, ht, hchecked⟩ := exists_ok_of_any hnested
  obtain ⟨t', ht', hchecked'⟩ := exists_ok_of_any hchained
  simp only [Bool.and_eq_true, Bool.not_eq_true'] at hchecked hchecked'
  exact ⟨t, t', ht, ht', hchecked.1, hchecked'.1, hchecked.2, hchecked'.2⟩

end RouteLens
