import RouteLens.Proofs.Payload.ClassReferences
import RouteLens.Proofs.Payload.ScalarField

/-!
# Annotations read in full

`Expr.addType` adds what an annotation says to whatever is known.  Quoted annotations in it are read
with as much depth as they need, so that what is quoted is read as if it stood there by itself
(`addType_quoted`).  A mark that a field may be left out, or that it was declared as required, is
never looked at on the way: it makes no difference whether a field is marked before or after
(`addType_mark`).
-/

namespace RouteLens

variable {edition : Nat} [CharacterNames edition]

/-! ## Depth -/

section Congruence

variable {bound : Nat} {quoted quoted' : QuotedReader} {e : Expr} {es : List Expr}

theorem readElement_congr (h : e.readType quoted = e.readType quoted') :
    e.readElement quoted = e.readElement quoted' := by
  obtain ⟨span, form⟩ := e
  rw [Expr.readElement, Expr.readElement]
  exact congrArg (ElementType.mk _) (congrFun h _)

theorem firstMember_congr (h : ∀ m ∈ es, m.readType quoted = m.readType quoted') :
    firstMemberType quoted es = firstMemberType quoted' es := by
  funext t
  rw [firstMemberType_eq, firstMemberType_eq]
  cases hfind : es.find? (!·.isNull) with
  | none => rfl
  | some m => exact congrFun (h m (List.mem_of_find?_eq_some hfind)) t

/-- Two ways to read quoted annotations make no difference to an annotation if they make none to the
texts in it. -/
theorem readType_congr (hquoted : ∀ s : String, s.length + 2 ≤ bound → quoted s = quoted' s)
    (he : e.TextsWithin bound) : e.readType quoted = e.readType quoted' := by
  induction e using Expr.sizeInduction with
  | step e ih =>
    obtain ⟨span, form⟩ := e
    have hform := Expr.textsWithin_node.1 he
    funext t
    cases form with
    | constant value =>
      cases value with
      | text s marked => exact congrFun (hquoted s hform) t
      | _ => rfl
    | binary left op right =>
      simp only [Expr.node.sizeOf_spec, ExprForm.binary.sizeOf_spec] at ih
      cases op with
      | bitOr =>
        have hleft := ih left (by omega) hform.1
        have hright := ih right (by omega) hform.2
        rw [Expr.readType, Expr.readType, ExprForm.readType, ExprForm.readType, hleft, hright]
      | _ => rfl
    | call func args keywords =>
      simp only [Expr.node.sizeOf_spec, ExprForm.call.sizeOf_spec] at ih
      have hargs (m : Expr) (hm : m ∈ args) : m.readElement quoted = m.readElement quoted' := by
        have hsize := List.sizeOf_lt_of_mem hm
        exact readElement_congr (ih m (by omega) (hform.2.1 m hm))
      have hkeywords (k : Keyword) (hk : k ∈ keywords) :
          k.value.readElement quoted = k.value.readElement quoted' := by
        have hsize := List.sizeOf_lt_of_mem hk
        have hwithin := hform.2.2 k hk
        obtain ⟨kspan, name, value⟩ := k
        simp only [Keyword.mk.sizeOf_spec] at hsize
        exact readElement_congr (ih value (by omega) (Node.textsWithin_keyword.1 hwithin))
      have hfirst : args.head?.map (·.readElement quoted) =
          args.head?.map (·.readElement quoted') :=
        Option.map_congr fun m hm => hargs m (List.mem_of_mem_head? hm)
      have hitem : (itemTypeExpr? keywords).map (·.readElement quoted) =
          (itemTypeExpr? keywords).map (·.readElement quoted') := by
        refine Option.map_congr fun m hm => ?_
        obtain ⟨k, hk, rfl⟩ := Option.map_eq_some_iff.1 hm
        exact hkeywords k (List.mem_filter.1 (List.mem_of_getLast? hk)).1
      rw [Expr.readType, Expr.readType, readType_call, readType_call, hfirst, hitem]
    | subscript base index =>
      simp only [Expr.node.sizeOf_spec, ExprForm.subscript.sizeOf_spec] at ih
      have hargs (m : Expr) (hm : m ∈ typeArguments index) :
          m.readType quoted = m.readType quoted' := by
        have hsize := sizeOf_le_of_mem_typeArguments hm
        exact ih m (by omega) (textsWithin_of_mem_typeArguments hform.2 hm)
      rw [readType_subscript, readType_subscript]
      cases hcases : typeArguments index with
      | nil => rfl
      | cons first rest =>
        rw [hcases] at hargs
        have helements : (first :: rest).map (·.readElement quoted) =
            (first :: rest).map (·.readElement quoted') :=
          List.map_congr_left fun m hm => readElement_congr (hargs m hm)
        simp only [← firstMemberType_eq]
        rw [hargs first List.mem_cons_self, firstMember_congr hargs, helements]
    | _ => rfl

/-- A quoted annotation quotes only shorter ones, so that any depth above its length reads the
same. -/
theorem readQuotedType_eq {depth depth' : Nat} {s : String} (h : s.length < depth)
    (h' : s.length < depth') : readQuotedType depth s = readQuotedType depth' s := by
  induction depth generalizing depth' s with
  | zero => cases h
  | succ depth ih =>
    cases depth' with
    | zero => cases h'
    | succ depth' =>
      funext t
      rw [readQuotedType, readQuotedType]
      cases hread : readQuoted s with
      | error f => rfl
      | ok read =>
        cases read with
        | none => rfl
        | some e =>
          have he := textsWithin_of_readQuoted hread
          refine congrFun (readType_congr (fun s' hs' => ?_) he) t
          exact ih (by omega) (by omega)

end Congruence

/-! ## Marks -/

/-- A step of reading that never looks at the marks that `mark` sets. -/
def PassesMarks {α : Type} (mark : Bool → Bool → α → α) (f : α → Except Fault α) : Prop :=
  ∀ optional required t, f (mark optional required t) = (f t).map (mark optional required)

namespace PassesMarks

variable {α β : Type} {mark : Bool → Bool → α → α}

theorem bind {f g : α → Except Fault α} (hf : PassesMarks mark f) (hg : PassesMarks mark g) :
    PassesMarks mark fun t => f t >>= g := by
  intro optional required t
  simp only [hf optional required t]
  cases f t with
  | error e => rfl
  | ok u => exact hg optional required u

theorem foldlM {f : α → β → Except Fault α} (hf : ∀ b, PassesMarks mark (f · b)) (bs : List β) :
    PassesMarks mark (bs.foldlM f ·) := by
  induction bs with
  | nil => exact fun _ _ _ => rfl
  | cons b bs ih => exact (hf b).bind ih

end PassesMarks

namespace FieldFacts

open Recursion (marking)

variable (optional required : Bool) (t : FieldFacts)

theorem tighten_marking (side : Side) (v : Value) (exclusive : Bool) :
    (marking optional required t).tighten side v exclusive =
      marking optional required (t.tighten side v exclusive) := by
  have hbound : (marking optional required t).bound? side = t.bound? side := by cases side <;> rfl
  unfold tighten
  rw [hbound]
  split
  · rfl
  · cases side <;> rfl
  · split_ifs <;> cases side <;> rfl

theorem applyTypeName_marking (name : String) :
    (marking optional required t).applyTypeName name =
      marking optional required (t.applyTypeName name) := by
  have hkind (kind : ScalarKind) : { marking optional required t with kind := some kind } =
      marking optional required { t with kind := some kind } := rfl
  unfold applyTypeName
  split
  · rfl
  · simp only [hkind]
    split <;> split <;> simp only [raiseMinimum, lowerMaximum, tighten_marking]
  · split_ifs <;> rfl

theorem declare_marking (k : Keyword) :
    (marking optional required t).declare k = marking optional required (t.declare k) := by
  unfold declare
  split
  · split_ifs <;> simp [marking]
  · split_ifs <;> simp [marking]
  · split <;> rfl
  · rfl

theorem declareDefault_marking (args : List Expr) :
    (marking optional required t).declareDefault args =
      marking optional required (t.declareDefault args) := by
  unfold declareDefault
  split
  · split_ifs <;> simp [marking]
  · rfl

variable {optional required t}

/-- A constraint is read without a look at the marks. -/
theorem passesMarks_constrain (name : String) (value : Expr) :
    PassesMarks marking (·.constrain name value) := by
  intro optional required t
  simp only [constrain]
  cases value.literal? with
  | none => rfl
  | some v =>
    simp only
    split
    -- the two names of each length
    iterate 4
      · cases lengthOf? v with
        | error e => rfl
        | ok n => cases n <;> rfl
    · simp only [raiseMinimum, tighten_marking]; rfl
    · simp only [raiseMinimum, tighten_marking]; rfl
    · simp only [lowerMaximum, tighten_marking]; rfl
    · simp only [lowerMaximum, tighten_marking]; rfl
    · rfl

theorem passesMarks_constrainAll (keywords : List Keyword) :
    PassesMarks marking (·.constrainAll keywords) := by
  refine PassesMarks.foldlM (fun k optional required t => ?_) keywords
  cases k.name with
  | none => rfl
  | some n => exact passesMarks_constrain n k.value optional required t

theorem passesMarks_declareField (args : List Expr) (keywords : List Keyword) :
    PassesMarks marking (·.declareField args keywords) := by
  intro optional required t
  have hdeclared (u : FieldFacts) : keywords.foldl declare (marking optional required u) =
      marking optional required (keywords.foldl declare u) := by
    induction keywords generalizing u with
    | nil => rfl
    | cons k ks ih => rw [List.foldl_cons, List.foldl_cons, declare_marking, ih]
  simp only [declareField, declareDefault_marking, hdeclared]
  exact passesMarks_constrainAll keywords optional required _

/-- A marker is read without a look at the marks. -/
theorem passesMarks_applyMarker (name : String) (args : List Expr) (keywords : List Keyword) :
    PassesMarks marking (·.applyMarker name args keywords) := by
  intro optional required t
  simp only [applyMarker]
  split
  · cases lengthOf? _ <;> rfl
  · cases lengthOf? _ with
    | error e => rfl
    | ok n =>
      simp only [ok_bind]
      split
      · cases lengthOf? _ <;> rfl
      · rfl
  · cases lengthOf? _ <;> rfl
  · split
    · exact passesMarks_constrain _ _ optional required t
    · exact passesMarks_constrainAll keywords optional required t
  · exact passesMarks_constrainAll keywords optional required t

theorem passesMarks_applyMetadata (e : Expr) : PassesMarks marking (·.applyMetadata e) := by
  intro optional required t
  simp only [applyMetadata]
  split
  · split_ifs
    · exact passesMarks_declareField _ _ optional required t
    · exact passesMarks_applyMarker _ _ _ optional required t
  · rfl

end FieldFacts

namespace FieldType

/-- Marks that a field may be left out, or that it was declared as required. -/
def mark (optional required : Bool) (t : FieldType) : FieldType :=
  t.mapFacts (Recursion.marking optional required)

variable (optional required : Bool) (t : FieldType)

@[simp] theorem facts_mark :
    (t.mark optional required).facts = Recursion.marking optional required t.facts :=
  facts_mapFacts _ t

theorem mark_mark (optional' required' : Bool) :
    (t.mark optional required).mark optional' required' =
      t.mark (optional || optional') (required || required') := by
  cases t
  simp [mark, mapFacts, Recursion.marking, Bool.or_assoc]

theorem mark_false : t.mark false false = t := by
  cases t
  simp [mark, mapFacts, Recursion.marking]

theorem mark_optional : t.mark true false = t.mapFacts ({ · with optional := true }) := by
  cases t
  simp [mark, mapFacts, Recursion.marking]

theorem mark_required : t.mark false true = t.mapFacts ({ · with requiredMarker := true }) := by
  cases t
  simp [mark, mapFacts, Recursion.marking]

theorem ite_mark (b : Bool) :
    (if b then t.mapFacts ({ · with optional := true }) else t) = t.mark b false := by
  cases b
  · exact (mark_false t).symm
  · exact (mark_optional t).symm

theorem passesMarks_ok : PassesMarks mark .ok :=
  fun _ _ _ => rfl

theorem passesMarks_mapFacts {g : FieldFacts → FieldFacts}
    (hg : ∀ optional required t, g (Recursion.marking optional required t) =
      Recursion.marking optional required (g t)) :
    PassesMarks mark fun t => .ok (t.mapFacts g) := by
  rintro optional required ⟨facts, element, fixed⟩
  simp only [mark, mapFacts, map_ok, hg]

theorem passesMarks_learn {g : FieldFacts → Except Fault FieldFacts}
    (hg : PassesMarks Recursion.marking g) : PassesMarks mark (·.learn g) := by
  rintro optional required ⟨facts, element, fixed⟩
  simp only [mark, mapFacts, learn, hg optional required facts]
  cases g facts <;> rfl

variable {f g : FieldType → Except Fault FieldType}

/-- Marks set before a reading are passed by it as those of the field. -/
theorem passesMarks_of_mark (hf : PassesMarks mark f) (optional required : Bool) :
    PassesMarks mark fun t => f (t.mark optional required) := by
  intro optional' required' t
  simp only [hf optional required]
  rw [hf optional' required']
  cases f t with
  | error e => rfl
  | ok u =>
    simp only [map_ok, mark_mark]
    rw [Bool.or_comm, Bool.or_comm required']

/-- A subscripted name passes marks if its arguments do. -/
theorem passesMarks_read {args : List Expr} {first member : FieldType → Except Fault FieldType}
    (hfirst : PassesMarks mark first) (hmember : PassesMarks mark member)
    (elements : Unit → List ElementType) (w : Wrapper) :
    PassesMarks mark fun t => w.read args first member elements t := by
  cases w with
  | annotated =>
    have hmetadata := PassesMarks.foldlM FieldFacts.passesMarks_applyMetadata args.tail
    exact hfirst.bind (passesMarks_learn hmetadata)
  | optional =>
    simp only [Wrapper.read, ← mark_optional]
    exact passesMarks_of_mark hfirst true false
  | required =>
    simp only [Wrapper.read, ← mark_required]
    exact passesMarks_of_mark hfirst false true
  | transparent => exact hfirst
  | union =>
    simp only [Wrapper.read, ite_mark]
    exact passesMarks_of_mark hmember _ false
  | array =>
    rintro optional required ⟨facts, element, fixed⟩
    rfl
  | tuple =>
    rintro optional required ⟨facts, element, fixed⟩
    simp only [Wrapper.read]
    split_ifs <;> rfl
  | classVar | literal | mapping | named => exact passesMarks_mapFacts fun _ _ _ => rfl
  | unnamed => exact passesMarks_ok

end FieldType

section Marks

variable {quoted : QuotedReader} {e : Expr} {es : List Expr}

open FieldType (mark)

theorem passesMarks_firstMember (h : ∀ m ∈ es, PassesMarks mark (m.readType quoted)) :
    PassesMarks mark (firstMemberType quoted es) := by
  intro optional required t
  rw [firstMemberType_eq, firstMemberType_eq]
  cases hfind : es.find? (!·.isNull) with
  | none => rfl
  | some m => exact h m (List.mem_of_find?_eq_some hfind) optional required t

/-- A call is read without a look at the marks. -/
theorem passesMarks_call (func : Expr) (args : List Expr) (keywords : List Keyword) :
    PassesMarks mark (ExprForm.readType quoted (.call func args keywords)) := by
  have hconstrain := FieldFacts.passesMarks_constrainAll keywords
  have hscalar (kind : ScalarKind) : PassesMarks Recursion.marking fun f =>
      { f with kind := some kind }.constrainAll keywords :=
    fun optional required f => hconstrain optional required { f with kind := some kind }
  rintro optional required ⟨facts, element, fixed⟩
  rw [readType_call, readType_call]
  simp only
  generalize func.terminalName?.getD "" = name
  cases constrainedKind? name with
  | some kind =>
    exact FieldType.passesMarks_learn (hscalar kind) optional required (.mk facts element fixed)
  | none =>
    simp only
    split_ifs
    · exact FieldType.passesMarks_learn hconstrain optional required
        (.mk { facts with isArray := true } _ fixed)
    · rfl
    · rfl

/-- An annotation passes marks if the texts in it do. -/
theorem passesMarks_readType (hquoted : ∀ s, PassesMarks mark (quoted s)) :
    PassesMarks mark (e.readType quoted) := by
  induction e using Expr.sizeInduction with
  | step e ih =>
    obtain ⟨span, form⟩ := e
    cases form with
    | constant value =>
      cases value with
      | text s marked => exact hquoted s
      | _ => exact FieldType.passesMarks_ok
    | binary left op right =>
      simp only [Expr.node.sizeOf_spec, ExprForm.binary.sizeOf_spec] at ih
      cases op with
      | bitOr =>
        have hmembers (m : Expr) (hm : m ∈ [left, right]) :
            PassesMarks mark (m.readType quoted) := by
          obtain rfl | rfl : m = left ∨ m = right := by simpa using hm
          · exact ih _ (by omega)
          · exact ih _ (by omega)
        have hmarked := FieldType.passesMarks_of_mark (passesMarks_firstMember hmembers)
          (left.isNull || right.isNull) false
        intro optional required t
        have hread (t : FieldType) :
            Expr.readType quoted (.node span (.binary left .bitOr right)) t =
            firstMemberType quoted [left, right] (t.mark (left.isNull || right.isNull) false) := by
          rw [readType_union, firstMemberType_eq, ← FieldType.ite_mark]
        rw [hread, hread]
        exact hmarked optional required t
      | _ => exact FieldType.passesMarks_ok
    | call func args keywords => exact passesMarks_call func args keywords
    | subscript base index =>
      simp only [Expr.node.sizeOf_spec, ExprForm.subscript.sizeOf_spec] at ih
      have hargs (m : Expr) (hm : m ∈ typeArguments index) :
          PassesMarks mark (m.readType quoted) := by
        have hsize := sizeOf_le_of_mem_typeArguments hm
        exact ih m (by omega)
      intro optional required t
      rw [readType_subscript, readType_subscript]
      cases base.typeName with
      | error f => rfl
      | ok name =>
        simp only [ok_bind, ← firstMemberType_eq]
        cases hcases : typeArguments index with
        | nil => exact FieldType.passesMarks_mapFacts (fun _ _ _ => rfl) optional required t
        | cons first rest =>
          rw [hcases] at hargs
          exact FieldType.passesMarks_read (hargs first List.mem_cons_self)
            (passesMarks_firstMember hargs) _ (.ofName name) optional required t
    | name id =>
      exact FieldType.passesMarks_mapFacts fun _ _ t => FieldFacts.applyTypeName_marking _ _ t id
    | «attribute» value attr =>
      exact FieldType.passesMarks_mapFacts fun _ _ t => FieldFacts.applyTypeName_marking _ _ t attr
    | _ => exact FieldType.passesMarks_ok

theorem passesMarks_readQuotedType (depth : Nat) (s : String) :
    PassesMarks mark (readQuotedType depth s) := by
  induction depth generalizing s with
  | zero => exact FieldType.passesMarks_ok
  | succ depth ih =>
    intro optional required t
    rw [readQuotedType, readQuotedType]
    cases readQuoted s with
    | error f => rfl
    | ok read =>
      cases read with
      | none => rfl
      | some e => exact passesMarks_readType ih optional required t

end Marks

/-! ## Forms -/

/-- Adds what an annotation says to what is known, the quoted annotations in it read in full. -/
def Expr.addType (e : Expr) (t : FieldType) : Except Fault FieldType :=
  e.readType (fun s => readQuotedType (s.length + 1) s) t

theorem ofTypeExpr_eq_addType (e : Expr) :
    FieldType.ofTypeExpr e = e.addType (.unknown e.print) := rfl

/-- It makes no difference whether a field is marked before or after its annotation is read. -/
theorem addType_mark (e : Expr) (optional required : Bool) (t : FieldType) :
    e.addType (t.mark optional required) = (e.addType t).map (·.mark optional required) :=
  passesMarks_readType (fun s => passesMarks_readQuotedType _ s) optional required t

/-- Adds what the first member of a union says that is not the absent value.  The field may be left
out if one of the members is. -/
def addMembers (es : List Expr) (t : FieldType) : Except Fault FieldType :=
  (es.find? (!·.isNull)).elim .ok Expr.addType (t.mark (es.any Expr.isNull) false)

section Forms

variable {span : Span} {s : String} {marked : Bool} {e base index left right : Expr}
  {es : List Expr} {name : Option String}

/-- What is quoted is read as if it stood there by itself. -/
theorem addType_quoted (hread : readQuoted s = .ok (some e)) (t : FieldType) :
    Expr.addType (.node span (.constant (.text s marked))) t = e.addType t := by
  have hquoted : Expr.addType (.node span (.constant (.text s marked))) t =
      readQuotedType (s.length + 1) s t := rfl
  rw [hquoted, readQuotedType, hread, ok_bind]
  have he := textsWithin_of_readQuoted hread
  exact congrFun (readType_congr (fun s' hs' => readQuotedType_eq (by omega) (by omega)) he) t

theorem addType_null (he : e.isNull = true) (t : FieldType) : e.addType t = .ok t := by
  unfold Expr.isNull at he
  split at he
  · rfl
  · cases he

theorem addType_either (t : FieldType) :
    Expr.addType (.node span (.binary left .bitOr right)) t = addMembers [left, right] t := by
  rw [Expr.addType, readType_union, addMembers, ← FieldType.ite_mark]
  simp only [List.any_cons, List.any_nil, Bool.or_false]
  cases [left, right].find? (!·.isNull) <;> rfl

/-- A subscripted name is read from its arguments. -/
theorem addType_subscript (hbase : base.typeName = .ok name) (hargs : typeArguments index = e :: es)
    (t : FieldType) :
    Expr.addType (.node span (.subscript base index)) t =
      (Wrapper.ofName name).read (e :: es) e.addType
        (((e :: es).find? (!·.isNull)).elim .ok Expr.addType)
        (fun _ => (e :: es).map (·.readElement fun s => readQuotedType (s.length + 1) s)) t := by
  rw [Expr.addType, readType_subscript, hbase, ok_bind]
  simp only [hargs]
  congr 1
  funext t
  cases (e :: es).find? (!·.isNull) <;> rfl

theorem addType_union (hbase : base.typeName = .ok (some "Union")) (hne : typeArguments index ≠ [])
    (t : FieldType) :
    Expr.addType (.node span (.subscript base index)) t = addMembers (typeArguments index) t := by
  obtain ⟨e, es, hargs⟩ := List.exists_cons_of_ne_nil hne
  rw [addType_subscript hbase hargs, hargs, addMembers, ← FieldType.ite_mark]
  rfl

end Forms

end RouteLens
