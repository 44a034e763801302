import RouteLens.Payload.Synthesis
import RouteLens.Proofs.Payload.AnnotationForms
import RouteLens.Proofs.Payload.Samples

/-!
# Scalar fields

An annotation that declares a scalar is a name or a call of one, within wrappers, unions, metadata
and quotes.  Reading it finds the kind and narrows the facts by every constraint on the way, so the
sample of the field satisfies all of them whenever something does.
-/

namespace RouteLens

section

variable {edition : Nat} [CharacterNames edition]

/-- The wrappers that stand for their first argument. -/
def Wrapper.LooksThrough (w : Wrapper) : Prop :=
  w = .optional ∨ w = .required ∨ w = .transparent

/-- An annotation that declares a scalar of a kind, with the constraints that it spells out.  The
texts that it quotes are shorter than a limit, and what a text quotes is shorter than the text. -/
inductive Expr.DeclaresScalar : Nat → Expr → ScalarKind → List Constraint → Prop
  | name {limit span id s} (hformat : TextFormat.ofTypeName? id = none)
      (hscalar : scalarTypes.lookup id = some s) :
      DeclaresScalar limit (.node span (.name id)) s.kind s.constraints
  | qualified {limit span value attr s} (hformat : TextFormat.ofTypeName? attr = none)
      (hscalar : scalarTypes.lookup attr = some s) :
      DeclaresScalar limit (.node span (.attribute value attr)) s.kind s.constraints
  | call {limit span func args ks kind}
      (hkind : constrainedKind? (func.terminalName?.getD "") = some kind)
      (hliteral : ∀ k ∈ ks, k.IsLiteral) :
      DeclaresScalar limit (.node span (.call func args ks)) kind
        (ks.filterMap Keyword.constraint?)
  | annotated {limit span base index name e ms kind cs} (hbase : base.typeName = .ok name)
      (hwrapper : Wrapper.ofName name = .annotated) (hargs : typeArguments index = e :: ms)
      (hform : ∀ m ∈ ms, m.IsKeywordForm) (h : DeclaresScalar limit e kind cs) :
      DeclaresScalar limit (.node span (.subscript base index)) kind
        (cs ++ ms.flatMap fun m => m.metadataKeywords.filterMap Keyword.constraint?)
  | wrapped {limit span base index name e es kind cs} (hbase : base.typeName = .ok name)
      (hwrapper : (Wrapper.ofName name).LooksThrough) (hargs : typeArguments index = e :: es)
      (h : DeclaresScalar limit e kind cs) :
      DeclaresScalar limit (.node span (.subscript base index)) kind cs
  | union {limit span base index name e kind cs} (hbase : base.typeName = .ok name)
      (hwrapper : Wrapper.ofName name = .union)
      (hfirst : (typeArguments index).find? (!·.isNull) = some e)
      (h : DeclaresScalar limit e kind cs) :
      DeclaresScalar limit (.node span (.subscript base index)) kind cs
  | either {limit span left right e kind cs} (hfirst : [left, right].find? (!·.isNull) = some e)
      (h : DeclaresScalar limit e kind cs) :
      DeclaresScalar limit (.node span (.binary left .bitOr right)) kind cs
  | quoted {limit span s marked e kind cs} (hlimit : s.length < limit)
      (hread : readQuoted s = .ok (some e)) (h : DeclaresScalar s.length e kind cs) :
      DeclaresScalar limit (.node span (.constant (.text s marked))) kind cs

/-! ## Wrappers -/

/-- A subscripted name is read from its arguments. -/
theorem readType_wrapped {quoted : QuotedReader} {span : Span} {base index e : Expr}
    {es : List Expr} {name : Option String} (hbase : base.typeName = .ok name)
    (hargs : typeArguments index = e :: es) (t : FieldType) :
    (Expr.node span (.subscript base index)).readType quoted t =
      (Wrapper.ofName name).read (e :: es) (e.readType quoted) (firstMemberType quoted (e :: es))
        (fun _ => (e :: es).map (·.readElement quoted)) t := by
  rw [readType_subscript, hbase, ok_bind]
  simp only [hargs, ← firstMemberType_eq]

/-! ## Reading a declaration -/

/-- A reader of quoted annotations with enough depth for texts below a limit. -/
def QuotedReader.ReadsBelow (quoted : QuotedReader) (limit : Nat) : Prop :=
  ∀ s : String, s.length < limit → ∃ depth, s.length < depth ∧ quoted s = readQuotedType depth s

theorem readsBelow_readQuotedType (limit : Nat) :
    QuotedReader.ReadsBelow (readQuotedType limit) limit :=
  fun _ hs => ⟨limit, hs, rfl⟩

theorem readsBelow_ofTypeExpr (limit : Nat) :
    QuotedReader.ReadsBelow (fun s => readQuotedType (s.length + 1) s) limit :=
  fun s _ => ⟨s.length + 1, Nat.lt_succ_self _, rfl⟩

theorem QuotedReader.ReadsBelow.mono {quoted : QuotedReader} {m n : Nat} (h : m ≤ n)
    (hq : quoted.ReadsBelow n) : quoted.ReadsBelow m :=
  fun s hs => hq s (hs.trans_le h)

/-- What reading an annotation of a scalar makes of the facts. -/
def FieldType.ReadsScalar (t : FieldType) (kind : ScalarKind) (cs : List Constraint)
    (r : Except Fault FieldType) : Prop :=
  ∃ t', r = .ok t' ∧ FieldFacts.Narrows { t.facts with kind := some kind } cs t'.facts

section Steps

variable {t : FieldType} {kind : ScalarKind} {cs : List Constraint}

@[simp] theorem FieldType.facts_mapFacts (f : FieldFacts → FieldFacts) (t : FieldType) :
    (t.mapFacts f).facts = f t.facts := by
  cases t
  rfl

theorem FieldType.narrows_learn {g : FieldFacts → Except Fault FieldFacts} {f : FieldFacts}
    (h : FieldFacts.Learns f cs (g t.facts)) :
    ∃ t', t.learn g = .ok t' ∧ FieldFacts.Narrows f cs t'.facts := by
  obtain ⟨f', hf', hn⟩ := h
  cases t with
  | mk facts element fixed =>
    rw [FieldType.facts] at hf'
    exact ⟨.mk f' element fixed, by rw [learn, hf']; rfl, hn⟩

/-- What may be left out does not matter to the reading of a scalar. -/
theorem FieldType.ReadsScalar.of_flags {f : FieldFacts → FieldFacts} {r : Except Fault FieldType}
    (hf : ∃ o q s, f t.facts = { t.facts with optional := o, requiredMarker := q, skip := s })
    (h : (t.mapFacts f).ReadsScalar kind cs r) : t.ReadsScalar kind cs r := by
  obtain ⟨t', ht', hn⟩ := h
  obtain ⟨o, q, s, hf⟩ := hf
  rw [facts_mapFacts, hf] at hn
  exact ⟨t', ht', hn.of_flags⟩

end Steps

/-- Reading an annotation of a scalar finds its kind and narrows the facts by its constraints. -/
theorem Expr.DeclaresScalar.readType_eq {limit : Nat} {e : Expr} {kind : ScalarKind}
    {cs : List Constraint} (h : e.DeclaresScalar limit kind cs) {quoted : QuotedReader}
    (hq : quoted.ReadsBelow limit) (t : FieldType) :
    t.ReadsScalar kind cs (e.readType quoted t) := by
  induction h generalizing quoted t with
  | name hformat hscalar =>
    refine ⟨_, by rw [Expr.readType, ExprForm.readType], ?_⟩
    rw [FieldType.facts_mapFacts]
    exact FieldFacts.narrows_applyTypeName hformat hscalar t.facts
  | qualified hformat hscalar =>
    refine ⟨_, by rw [Expr.readType, ExprForm.readType], ?_⟩
    rw [FieldType.facts_mapFacts]
    exact FieldFacts.narrows_applyTypeName hformat hscalar t.facts
  | @call _ span func args ks kind hkind hliteral =>
    have hread : (Expr.node span (.call func args ks)).readType quoted t =
        t.learn fun f => { f with kind := some kind }.constrainAll ks := by
      cases args <;> simp only [Expr.readType, ExprForm.readType, hkind]
    rw [hread]
    exact FieldType.narrows_learn (FieldFacts.learns_constrainAll hliteral _)
  | @annotated _ _ _ _ _ _ ms _ _ hbase hwrapper hargs hform h ih =>
    obtain ⟨u, hu, hn⟩ := ih hq t
    rw [readType_wrapped hbase hargs, hwrapper, Wrapper.read, hu, ok_bind]
    obtain ⟨t', ht', hn'⟩ :=
      FieldType.narrows_learn (t := u) (g := fun f => ms.foldlM FieldFacts.applyMetadata f)
        (FieldFacts.learns_metadata hform u.facts)
    exact ⟨t', ht', hn.trans hn'⟩
  | wrapped hbase hwrapper hargs h ih =>
    -- The wrapper sets a flag at most before its argument is read.
    rw [readType_wrapped hbase hargs]
    rcases hwrapper with hw | hw | hw <;> rw [hw, Wrapper.read]
    · exact (ih hq _).of_flags ⟨_, _, _, rfl⟩
    · exact (ih hq _).of_flags ⟨_, _, _, rfl⟩
    · exact ih hq t
  | @union _ _ _ index _ _ _ _ hbase hwrapper hfirst h ih =>
    cases hargs : typeArguments index with
    | nil => simp [hargs] at hfirst
    | cons d ds =>
      rw [hargs] at hfirst
      rw [readType_wrapped hbase hargs, hwrapper, Wrapper.read, firstMemberType_eq]
      simp only [hfirst]
      split
      · exact (ih hq _).of_flags ⟨_, _, _, rfl⟩
      · exact ih hq t
  | @either _ _ left right e kind cs hfirst h ih =>
    rw [Expr.readType, ExprForm.readType]
    have hread : t.ReadsScalar kind cs (e.readType quoted
        (if left.isNull || right.isNull then t.mapFacts ({ · with optional := true }) else t)) := by
      split
      · exact (ih hq _).of_flags ⟨_, _, _, rfl⟩
      · exact ih hq t
    cases hl : left.isNull with
    | false =>
      obtain rfl : left = e := by simpa [hl] using hfirst
      simpa [hl] using hread
    | true =>
      obtain ⟨hr, rfl⟩ : right.isNull = false ∧ right = e := by simpa [hl] using hfirst
      simpa [hl, hr] using hread
  | @quoted _ _ s _ _ _ _ hlimit hread h ih =>
    -- A text uses up one level of depth; the texts that it quotes are shorter, so enough is left.
    obtain ⟨depth, hd, hs⟩ := hq s hlimit
    cases depth with
    | zero => exact absurd hd (Nat.not_lt_zero _)
    | succ depth =>
      rw [Expr.readType, ExprForm.readType, hs, readQuotedType, hread, ok_bind]
      exact ih ((readsBelow_readQuotedType depth).mono (Nat.le_of_lt_succ hd)) t

/-! ## Fields -/

namespace PropertyDecl

/-- The keyword arguments of the field declaration that is the value of a field. -/
def valueKeywords (p : PropertyDecl) : List Keyword :=
  match p.value with
  | some (.node _ (.call func _ keywords)) =>
    if FieldFacts.isFieldCall func.terminalName? then keywords else []
  | _ => []

/-- A field that declares a scalar of a kind, with the constraints that its annotation and its value
spell out. -/
inductive DeclaresScalar (p : PropertyDecl) (kind : ScalarKind) : List Constraint → Prop
  | intro {limit cs} (htype : p.typeExpr.DeclaresScalar limit kind cs)
      (hvalue : ∀ k ∈ p.valueKeywords, k.IsLiteral) :
      DeclaresScalar p kind (cs ++ p.valueKeywords.filterMap Keyword.constraint?)

/-- The value of a field adds the constraints of its keyword arguments to what the annotation
says. -/
theorem fieldType_of_ofTypeExpr {p : PropertyDecl} {t : FieldType}
    (ht : FieldType.ofTypeExpr p.typeExpr = .ok t) (hvalue : ∀ k ∈ p.valueKeywords, k.IsLiteral) :
    ∃ t', p.fieldType = .ok t' ∧
      FieldFacts.Narrows t.facts (p.valueKeywords.filterMap Keyword.constraint?) t'.facts := by
  have hoptional :
      FieldFacts.Narrows t.facts [] (t.mapFacts ({ · with optional := true })).facts := by
    rw [FieldType.facts_mapFacts]
    exact (FieldFacts.Narrows.refl _).of_flags
  rw [fieldType, ht, ok_bind]
  unfold valueKeywords at hvalue ⊢
  cases hv : p.value with
  | none => exact ⟨t, rfl, .refl _⟩
  | some v =>
    rw [hv] at hvalue
    simp only
    split
    case isTrue he =>
      unfold FieldFacts.isEllipsis at he
      split at he
      · exact ⟨t, rfl, .refl _⟩
      · cases he
    case isFalse he =>
      cases v with
      | node span form =>
        cases form with
        | call func args ks =>
          simp only at hvalue ⊢
          split
          case isTrue hfield =>
            rw [if_pos hfield] at hvalue
            exact FieldType.narrows_learn (FieldFacts.learns_declareField hvalue args _)
          case isFalse hfield => exact ⟨_, rfl, hoptional⟩
        | _ => exact ⟨_, rfl, hoptional⟩

/-- What is known about a declared scalar: its kind, and exactly its constraints. -/
theorem DeclaresScalar.fieldType_eq {p : PropertyDecl} {kind : ScalarKind} {cs : List Constraint}
    (h : p.DeclaresScalar kind cs) :
    ∃ t, p.fieldType = .ok t ∧ t.facts.kind = some kind ∧ t.facts.format = none ∧
      t.facts.HasFiniteBounds ∧ (∀ n, t.facts.AdmitsLength n ↔ ∀ c ∈ cs, c.AllowsLength n) ∧
      ∀ x, t.facts.AdmitsNumber x ↔ ∀ c ∈ cs, c.AllowsNumber x := by
  obtain ⟨htype, hvalue⟩ := h
  obtain ⟨u, hu, hnu⟩ := htype.readType_eq (readsBelow_ofTypeExpr _) (.unknown p.typeExpr.print)
  obtain ⟨t, ht, hn⟩ := fieldType_of_ofTypeExpr hu hvalue
  have hall := hnu.trans hn
  have hfinite : FieldFacts.HasFiniteBounds
      { (FieldType.unknown p.typeExpr.print).facts with kind := some kind } :=
    ⟨by simp [FieldType.unknown, FieldType.facts], by simp [FieldType.unknown, FieldType.facts]⟩
  refine ⟨t, ht, hall.kind, hall.format, hall.finite hfinite, fun n => ?_, fun x => ?_⟩
  · rw [hall.length]
    simp [FieldFacts.AdmitsLength, FieldType.unknown, FieldType.facts]
  · rw [hall.number hfinite]
    simp [FieldFacts.AdmitsNumber, FieldType.unknown, FieldType.facts]

end PropertyDecl

/-! ## Samples of fields -/

section Value

variable (r : PayloadRules) (limit : Nat) (nested : PayloadRules.Nested) {t : FieldType}

end Value

/-- A call with one keyword argument. -/
def keywordCall (name keyword : String) (value : Constant) : Expr :=
  .node default (.call (.node default (.name name)) []
    [.mk default (some keyword) (.node default (.constant value))])

/-- Two and a half. -/
def twoAndHalf : Binary64 :=
  .finite false (5 <<< 50) 1023 (by decide)

/-- A number between two that are excluded: the annotation
`Annotated[confloat(gt=1), Interval(lt=2)]` with the value `Field(le=2.5)`. -/
def openRange : PropertyDecl where
  owner := ⟨⟨⟨"/", []⟩, "", []⟩, 0, .node default .pass, "Room", [], [], [], []⟩
  name := "width"
  typeExpr := .node default (.subscript (.node default (.name "Annotated")) (.node default (.tuple
    [keywordCall "confloat" "gt" (.int 1), keywordCall "Interval" "lt" (.int 2)])))
  value := some (keywordCall "Field" "le" (.float twoAndHalf))

theorem value_twoAndHalf : twoAndHalf.value = 5 / 2 :=
  (Binary64.denotes_finite (n := 5) (d := 2) (by decide) _ (by decide +kernel)).value_eq

end

end RouteLens
