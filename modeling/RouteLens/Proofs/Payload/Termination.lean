import RouteLens.Proofs.Payload.Limit
import RouteLens.Proofs.Payload.QuotedAnnotations
import RouteLens.Proofs.Project.Extent

/-!
# Payload synthesis ends

Three quantities go down.  A walk along bases marks a class that was not marked before, and the
classes in reach are finitely many (`visit_induction`).  Within one class, the elements of an
array are built from annotations inside of an annotation, which have been read to the end by then
(`Mirrors`).  A nested class uses up a level of depth (`ends_payload`).  Together they show that the
recursion ends for every project, and that it ends with what the functions compute that are given a
limit for the visits and a depth for the texts (`synthesize_ends`).
-/

namespace RouteLens

variable {edition : Nat} [CharacterNames edition]

namespace Recursion

variable {α β : Type}

/-! ## Visits of classes -/

section Visits

open PayloadRules

variable {classes : String → List ClassDecl} {r : PayloadRules} {names : List String}
  {keys : Finset (Path × Nat)}

theorem ends_baseNames (c : ClassDecl) : Ends Eq (baseNames · c) c.baseNames :=
  (ends_mapM fun e _ => ends_typeName e).bind fun _ _ _ h => h ▸ ends_pure rfl

theorem answer_findBases (c : ClassDecl) (names : List String) :
    (findBases c names).answer classes =
      .ok ((names.filterMap fun n => (classes n).head?).filter (·.key ≠ c.key)) := by
  induction names with
  | nil => rfl
  | cons n ns ih =>
    simp only [findBases, Inquiry.answer_seq, Inquiry.answer_findClass, ok_bind, ih]
    cases hn : (classes n).head? with
    | none => simp [hn]
    | some b => by_cases hkey : b.key = c.key <;> simp [hn, hkey]

theorem ends_projectBases (c : ClassDecl) :
    Ends Eq (projectBases classes r · c) ((r.projectBases c).answer classes) := by
  simp only [PayloadRules.projectBases, Inquiry.answer_seq, Inquiry.answer_lift, answer_findBases]
  exact (ends_baseNames c).bind fun _ _ _ h => h ▸ ends_pure rfl

/-- A visit ends like a bounded one wherever at most `limit` keys have not been visited. -/
def EndsWithin (classes : String → List ClassDecl) (keys : Finset (Path × Nat)) (limit : Nat)
    (visit : Nat → ClassDecl → Visited → Run (α × Visited)) (bounded : Visit α) : Prop :=
  ∀ c seen, c.key ∈ keys → unvisited keys seen ≤ limit →
    Ends Eq (visit · c seen) ((bounded c seen).answer classes)

/-- A search over several classes ends if it does for each of them. -/
theorem ends_anyHasBase {limit : Nat} {bounded : Visit Bool} (hgrows : Grows classes bounded)
    (hvisit : EndsWithin classes keys limit (hasBaseFrom classes r names) bounded)
    {cs : List ClassDecl} (hcs : ∀ c ∈ cs, c.key ∈ keys) {seen : Visited}
    (hseen : unvisited keys seen ≤ limit) :
    Ends Eq (anyHasBase classes r names · cs seen)
      ((anyVisited bounded cs seen).answer classes) := by
  induction cs generalizing seen with
  | nil => exact .of_succ (ends_pure rfl)
  | cons c cs ih =>
    refine .of_succ ?_
    simp only [anyHasBase, anyVisited, Inquiry.answer_seq]
    refine (hvisit c seen (hcs c List.mem_cons_self) hseen).bind fun x _ hx heq => ?_
    subst heq
    obtain ⟨found, seen'⟩ := x
    cases found with
    | true => exact ends_pure rfl
    | false =>
      exact ih (fun c hc => hcs c (List.mem_cons_of_mem _ hc))
        ((unvisited_le_of_subset (hgrows hx)).trans hseen)

/-- The search for a base ends: every class is visited once. -/
theorem endsWithin_hasBaseFrom (hkeys : Covers keys classes) (limit : Nat) :
    EndsWithin classes keys limit (hasBaseFrom classes r names) (r.hasBaseFrom names limit) := by
  refine visit_induction (P := fun limit c seen => Ends Eq (hasBaseFrom classes r names · c seen)
    ((r.hasBaseFrom names limit c seen).answer classes)) (fun {limit c seen} hmem => ?_)
    (fun {limit c seen} hmem hless ih => ?_) limit
  · refine .of_succ ?_
    simp only [hasBaseFrom, hasBaseFrom_of_mem hmem, if_pos (List.contains_iff_mem.2 hmem)]
    exact ends_pure rfl
  · have hnot : ¬ seen.contains c.key = true := by simpa using hmem
    refine .of_succ ?_
    rw [PayloadRules.hasBaseFrom, if_neg hnot]
    simp only [hasBaseFrom, if_neg hnot, Inquiry.answer_seq, Inquiry.answer_lift]
    refine (ends_baseNames c).bind fun bases _ _ heq => ?_
    subst heq
    by_cases hany : bases.any names.contains
    · simp only [if_pos hany]
      exact ends_pure rfl
    · simp only [if_neg hany, Inquiry.answer_seq]
      refine (ends_projectBases c).bind fun bs _ hbs heq => ?_
      subst heq
      exact ends_anyHasBase (grows_hasBaseFrom limit) ih
        (fun b hb => hkeys b (inReach_of_mem_projectBases hbs b hb)) hless

theorem ends_mergedFields {limit : Nat} {bounded : Visit (Ordered PropertyDecl)}
    (hgrows : Grows classes bounded)
    (hvisit : EndsWithin classes keys limit (fieldsFrom classes r) bounded)
    {cs : List ClassDecl} (hcs : ∀ c ∈ cs, c.key ∈ keys) {done : Ordered PropertyDecl}
    {seen : Visited} (hseen : unvisited keys seen ≤ limit) :
    Ends Eq (mergedFields classes r · cs done seen)
      ((mergeVisited bounded cs done seen).answer classes) := by
  induction cs generalizing done seen with
  | nil => exact .of_succ (ends_pure rfl)
  | cons c cs ih =>
    refine .of_succ ?_
    simp only [mergedFields, mergeVisited, Inquiry.answer_seq]
    refine (hvisit c seen (hcs c List.mem_cons_self) hseen).bind fun x _ hx heq => ?_
    subst heq
    exact ih (fun c hc => hcs c (List.mem_cons_of_mem _ hc))
      ((unvisited_le_of_subset (hgrows hx)).trans hseen)

/-- The search for fields ends: every class is visited once. -/
theorem endsWithin_fieldsFrom (hkeys : Covers keys classes) (limit : Nat) :
    EndsWithin classes keys limit (fieldsFrom classes r) (r.fieldsFrom limit) := by
  refine visit_induction (P := fun limit c seen => Ends Eq (fieldsFrom classes r · c seen)
    ((r.fieldsFrom limit c seen).answer classes)) (fun {limit c seen} hmem => ?_)
    (fun {limit c seen} hmem hless ih => ?_) limit
  · refine .of_succ ?_
    simp only [fieldsFrom, fieldsFrom_of_mem hmem, if_pos (List.contains_iff_mem.2 hmem)]
    exact ends_pure rfl
  · have hnot : ¬ seen.contains c.key = true := by simpa using hmem
    refine .of_succ ?_
    rw [PayloadRules.fieldsFrom, if_neg hnot]
    simp only [fieldsFrom, if_neg hnot, Inquiry.answer_seq]
    refine (ends_projectBases c).bind fun bs _ hbs heq => ?_
    subst heq
    refine (ends_mergedFields (grows_fieldsFrom limit) ih
      (fun b hb => hkeys b (inReach_of_mem_projectBases hbs b hb)) hless).bind fun x _ _ heq => ?_
    subst heq
    exact ends_pure rfl

end Visits

/-! ## Payloads -/

section Payloads

open PayloadRules

variable {classes : String → List ClassDecl} {r : PayloadRules} {limit : Nat}

section Classes

variable {c : ClassDecl} {names : List String} {target : Option ClassDecl}

theorem ends_hasBase (hlimit : SufficesWith classes c limit) :
    Ends Eq (hasBase classes r names · c) ((r.hasBase limit names c).answer classes) := by
  obtain ⟨keys, hkeys, hc, hcard⟩ := hlimit
  simp only [PayloadRules.hasBase, Inquiry.answer_seq]
  exact (endsWithin_hasBaseFrom hkeys limit c [] hc (unvisited_nil.trans_le hcard)).bind
    fun _ _ _ h => h ▸ ends_pure rfl

theorem ends_fields (hlimit : SufficesWith classes c limit) :
    Ends Eq (fields classes r · c) ((r.fields limit c).answer classes) := by
  obtain ⟨keys, hkeys, hc, hcard⟩ := hlimit
  simp only [PayloadRules.fields, Inquiry.answer_seq]
  exact (endsWithin_fieldsFrom hkeys limit c [] hc (unvisited_nil.trans_le hcard)).bind
    fun _ _ _ h => h ▸ ends_pure rfl

variable (hlimit : Suffices classes limit)
include hlimit

theorem ends_isStructured (hc : InReach classes c) :
    Ends Eq (isStructured classes r · c) ((r.isStructured limit c).answer classes) := by
  simp only [PayloadRules.isStructured, isEnum, Inquiry.answer_seq]
  refine (ends_hasBase (hlimit.with_inReach hc)).bind fun isEnum _ _ h => h ▸ ?_
  cases isEnum with
  | true => exact ends_pure rfl
  | false =>
    by_cases hfields : (c.decoratorNames.contains "dataclass" || !c.properties.isEmpty) = true
    · simp only [if_pos hfields]
      exact ends_pure rfl
    · simp only [if_neg hfields]
      exact ends_hasBase (hlimit.with_inReach hc)

theorem ends_enumValue? (htarget : ∀ c ∈ target, InReach classes c) :
    Ends Eq (enumValue? classes r · target) ((r.enumValue? limit target).answer classes) := by
  cases target with
  | none => exact ends_pure rfl
  | some c =>
    have hc := htarget c rfl
    simp only [PayloadRules.enumValue?, isEnum, Inquiry.answer_seq]
    refine (ends_hasBase (hlimit.with_inReach hc)).bind fun isEnum _ _ h => h ▸ ?_
    cases isEnum with
    | false => exact ends_pure rfl
    | true =>
      simp only [if_true, firstValue?, Inquiry.answer_seq]
      exact (ends_hasBase (hlimit.with_inReach hc)).bind fun _ _ _ h => h ▸ ends_pure rfl

end Classes

theorem answer_referenced (f : FieldFacts) :
    (PayloadRules.referenced f).answer classes = .ok (referenced classes f) := by
  unfold PayloadRules.referenced referenced
  cases f.classRef with
  | none => rfl
  | some n => by_cases hn : n.isEmpty <;> simp [hn]

theorem ends_times {f : Nat → α → Run β} {a : α} {q : Inquiry β}
    (h : Ends Eq (f · a) (q.answer classes)) (count : Nat) :
    Ends Eq (fun n => (List.replicate count a).mapM (f n)) ((times q count).answer classes) := by
  induction count with
  | zero => exact ends_pure rfl
  | succ count ih =>
    simp only [List.replicate_succ, List.mapM_cons, times, Inquiry.answer_seq]
    refine h.bind fun b _ _ hb => hb ▸ ?_
    exact ih.bind fun bs _ _ hbs => hbs ▸ ends_pure rfl

/-- Nested classes end like bounded ones. -/
def NestedEnds (classes : String → List ClassDecl) (r : PayloadRules) (depth maxDepth : Int)
    (nested : Nested) : Prop :=
  ∀ c, InReach classes c →
    Ends Eq
      (fun n =>
        if maxDepth ≤ depth then pure (.dict []) else payload classes r maxDepth n (depth + 1) c)
      ((nested c).answer classes)

section Values

variable {depth maxDepth : Int} {nested : Nested}

theorem ends_classValue (hlimit : Suffices classes limit)
    (hnested : NestedEnds classes r depth maxDepth nested) {f : FieldFacts}
    {target : Option ClassDecl} (htarget : ∀ c ∈ target, InReach classes c) :
    Ends Eq (classValue classes r maxDepth · depth f target)
      ((r.classPart .values limit nested f target).answer classes) := by
  cases target with
  | none => exact .of_succ (ends_pure rfl)
  | some c =>
    have hc := htarget c rfl
    refine .of_succ ?_
    simp only [classValue, classPart, Inquiry.answer_seq]
    refine (ends_isStructured hlimit hc).bind fun isStructured _ _ h => h ▸ ?_
    cases isStructured with
    | false => exact ends_pure rfl
    | true => exact hnested c hc

mutual

/-- Building a value ends if building nested ones does. -/
theorem ends_valueOf (hlimit : Suffices classes limit)
    (hnested : NestedEnds classes r depth maxDepth nested) : ∀ {t known}, Mirrors t known →
    Ends Eq (valueOf classes r maxDepth · depth t)
      ((r.partOf .values limit nested known).answer classes)
  | ⟨facts, element, fixed⟩, .mk _ type types, .mk helement hfixed => by
    refine .of_succ ?_
    rw [partOf.eq_def]
    simp only [valueOf, Inquiry.answer_seq, Inquiry.answer_lift]
    refine (ends_lift (settled? facts)).bind fun value _ _ h => h ▸ ?_
    cases value with
    | some v => exact ends_pure rfl
    | none =>
      simp only [Inquiry.answer_seq, answer_referenced, ok_bind]
      have hreach : ∀ c ∈ referenced classes facts, InReach classes c :=
        inReach_of_referenced (answer_referenced facts)
      refine (ends_enumValue? hlimit hreach).bind fun value _ _ h => h ▸ ?_
      cases value with
      | some v => exact ends_pure rfl
      | none =>
        by_cases harray : facts.isArray
        · simp only [if_pos harray, Shape.elements]
          cases hfixed with
          | some hes =>
            simp only [Inquiry.answer_seq]
            exact (ends_elementParts hlimit hnested hes).bind fun _ _ _ h => h ▸ ends_pure rfl
          | none =>
            simp only [Inquiry.answer_seq]
            exact (ends_times (ends_someElement hlimit hnested helement) _).bind
              fun _ _ _ h => h ▸ ends_pure rfl
        · simp only [if_neg harray]
          exact ends_classValue hlimit hnested hreach

theorem ends_someElement (hlimit : Suffices classes limit)
    (hnested : NestedEnds classes r depth maxDepth nested) :
    ∀ {element type}, SomeMirrors element type →
    Ends Eq (elementOf classes r maxDepth · depth element)
      ((r.someElement .values limit nested type).answer classes)
  | _, _, .none => by
    rw [someElement]
    exact .of_succ (ends_pure rfl)
  | _, _, .some h => ends_elementOf hlimit hnested h

theorem ends_elementOf (hlimit : Suffices classes limit)
    (hnested : NestedEnds classes r depth maxDepth nested) :
    ∀ {e type}, ElementMirrors e type →
    Ends Eq (elementOf classes r maxDepth · depth (some e))
      ((r.elementPart .values limit nested type).answer classes)
  | e, .mk _ (.ok known), .ok _ hread hknown => by
    refine .of_succ ?_
    simp only [elementOf, elementPart, Inquiry.answer_seq, Inquiry.answer_lift]
    refine (ends_lift e.printed).bind fun _ _ _ _ => ends_bind_ok hread ?_
    rw [hknown.facts_eq]
    exact (ends_lift known.facts.checkLength).bind fun _ _ _ _ => ends_valueOf hlimit hnested hknown
  | e, .mk _ (.error _), .error _ hread => by
    refine .of_succ ?_
    simp only [elementOf, elementPart, Inquiry.answer_seq, Inquiry.answer_lift]
    exact (ends_lift e.printed).bind fun _ _ _ _ => ends_bind_error hread

theorem ends_elementParts (hlimit : Suffices classes limit)
    (hnested : NestedEnds classes r depth maxDepth nested) :
    ∀ {es types}, AllMirror es types →
    Ends Eq (fun n => (es.map some).mapM (elementOf classes r maxDepth n depth))
      ((r.elementParts .values limit nested types).answer classes)
  | _, _, .nil => ends_pure rfl
  | _, _, .cons he hes => by
    rw [elementParts]
    simp only [List.map_cons, List.mapM_cons, Inquiry.answer_seq]
    refine (ends_elementOf hlimit hnested he).bind fun v _ _ h => h ▸ ?_
    exact (ends_elementParts hlimit hnested hes).bind fun vs _ _ h => h ▸ ends_pure rfl

end

/-- The entries of a dictionary come from the parts of a record. -/
theorem ends_entries (hlimit : Suffices classes limit)
    (hnested : NestedEnds classes r depth maxDepth nested) (total : Bool)
    (fields : Ordered PropertyDecl) :
    Ends (fun es parts => Value.dict es = Assembly.values.record parts)
      (entries classes r maxDepth · depth total fields)
      ((r.partsOf .values limit nested total fields).answer classes) := by
  induction fields with
  | nil => exact .of_succ (ends_pure rfl)
  | cons field fields ih =>
    obtain ⟨name, p⟩ := field
    rw [partsOf]
    refine .of_succ ?_
    simp only [entries]
    by_cases hname : Text.startsWith name "_" = true
    · simp only [if_pos hname]
      exact ih
    · simp only [if_neg hname, Inquiry.answer_seq, Inquiry.answer_lift]
      refine (ends_lift p.typeExpr.printed).bind fun _ _ _ _ => ?_
      refine (ends_fieldType p).bind fun t known _ h => ?_
      rw [h.facts_eq]
      by_cases hrequired : isRequired total known.facts = true
      · simp only [if_pos hrequired, Inquiry.answer_seq, Inquiry.answer_lift]
        refine (ends_lift known.facts.checkLength).bind fun _ _ _ _ => ?_
        refine (ends_valueOf hlimit hnested h).bind fun v _ _ hv => hv ▸ ?_
        refine ih.bind fun es parts _ hes => ends_pure ?_
        cases hes
        rfl
      · simp only [if_neg hrequired]
        exact ih

end Values

/-- The payload of a class ends: every nested class uses up a level. -/
theorem ends_payload (hlimit : Suffices classes limit) (depth maxDepth : Int) {c : ClassDecl}
    (hc : InReach classes c) :
    Ends Eq (payload classes r maxDepth · depth c)
      ((r.payload limit depth maxDepth c).answer classes) := by
  have hnested : NestedEnds classes r depth maxDepth fun nested =>
      if maxDepth ≤ depth then return Assembly.values.record []
      else r.payload limit (depth + 1) maxDepth nested := by
    intro nested hreach
    by_cases hdepth : maxDepth ≤ depth
    · simp only [if_pos hdepth]
      exact ends_pure rfl
    · simp only [if_neg hdepth]
      exact ends_payload hlimit (depth + 1) maxDepth hreach
  rw [PayloadRules.payload, recordAt, recordWith]
  refine .of_succ ?_
  simp only [payload, Inquiry.answer_seq]
  refine (ends_fields (hlimit.with_inReach hc)).bind fun fields _ _ h => h ▸ ?_
  exact (ends_entries hlimit hnested (isTotal c) fields).bind fun _ _ _ h => h ▸ ends_pure rfl
termination_by (maxDepth - depth).toNat
decreasing_by all_goals omega

theorem ends_synthesize (hlimit : Suffices classes limit) (className : String)
    (maxDepth : Option Int) :
    Ends Eq (synthesize classes r · className maxDepth)
      ((RouteLens.synthesize r limit className maxDepth).answer classes) := by
  unfold synthesize RouteLens.synthesize
  simp only [Inquiry.answer_seq, Inquiry.answer_findClass, ok_bind]
  cases hc : (classes className).head? with
  | none => exact ends_pure rfl
  | some c =>
    simp only [Inquiry.answer_seq]
    exact (ends_payload hlimit 0 _ ⟨className, hc⟩).bind fun _ _ _ h => h ▸ ends_pure rfl

end Payloads

/-- Payload synthesis ends for every project, class name and greatest depth: if calls may nest deep
enough, its outcome is that of the synthesis with a limit for the visits. -/
theorem synthesize_ends (d : Disk) (ls : Languages) (p : Project) (r : PayloadRules)
    (className : String) (maxDepth : Option Int) :
    ∃ least, ∀ n, least ≤ n → (synthesize (p.declarations d ls) r n className maxDepth).run =
      some ((RouteLens.synthesize r (p.size d + 1) className maxDepth).answer
        (p.declarations d ls)) := by
  have hlimit := (Project.suffices_size d ls p).mono (Nat.le_succ _)
  exact (ends_synthesize hlimit className maxDepth).exists_least

end Recursion

end RouteLens
