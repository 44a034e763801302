import RouteLens.Payload.Synthesis
import RouteLens.Source.Reading

/-!
# The depth of payloads

A payload of depth `d` is a payload of depth `d + 1` cut off below level `d`.  Where to cut cannot
be seen in a value, since a sample may hold dictionaries that belong to no class.  The payload is
therefore also put together as an `Outline`, by the same functions, in which the records of classes
stand apart; a value is what remains of an outline when the difference is forgotten.
-/

namespace RouteLens

section

variable {edition : Nat} [CharacterNames edition]

namespace PayloadRules

/-- A payload in which the records that were made for classes can be told from plain values. -/
inductive Outline where
  | plain (v : Value)
  | list (items : List Outline)
  | record (parts : List (String × Outline))

namespace Outline

theorem sizeOf_lt_of_mem_parts {parts : List (String × Outline)} {part : String × Outline}
    (h : part ∈ parts) : sizeOf part.2 < sizeOf parts := by
  have hpart := List.sizeOf_lt_of_mem h
  have hsnd : sizeOf part.2 < sizeOf part := by
    obtain ⟨name, o⟩ := part
    simp only [Prod.mk.sizeOf_spec]
    omega
  omega

/-- The value that an outline stands for. -/
def toValue : Outline → Value
  | plain v => v
  | list items => .list (items.map toValue)
  | record parts => .dict (parts.map fun part => (.text part.1, toValue part.2))
decreasing_by
  · have := List.sizeOf_lt_of_mem ‹_ ∈ items›
    simp only [list.sizeOf_spec]
    omega
  · have := sizeOf_lt_of_mem_parts ‹_ ∈ parts›
    simp only [record.sizeOf_spec]
    omega

/-- Cuts an outline: records inside of `n` others become empty.  Lists do not count. -/
def truncate : Nat → Outline → Outline
  | _, plain v => plain v
  | n, list items => list (items.map (truncate n))
  | 0, record _ => record []
  | n + 1, record parts => record (parts.map fun part => (part.1, truncate n part.2))
termination_by _ o => sizeOf o
decreasing_by
  · have := List.sizeOf_lt_of_mem ‹_ ∈ items›
    simp only [list.sizeOf_spec]
    omega
  · have := sizeOf_lt_of_mem_parts ‹_ ∈ parts›
    simp only [record.sizeOf_spec]
    omega

end Outline

/-- Payloads as outlines. -/
def Assembly.outlines : Assembly Outline := ⟨.plain, .list, .record⟩

/-! ## Parts that change together -/

section Tracks

variable {α β γ δ : Type} {exact : Prop}

/-- One computation follows another: its result is the other's, changed by `f`.  Where `exact` holds
it also has the other's faults. -/
def Tracks (exact : Prop) (f : α → β) (x : Except Fault α) (y : Except Fault β) : Prop :=
  (∀ v, x = .ok v → y = .ok (f v)) ∧ (exact → ∀ e, x = .error e → y = .error e)

theorem tracks_ok {f : α → β} {v : α} {w : β} (h : f v = w) :
    Tracks exact f (.ok v) (.ok w) := by
  refine ⟨fun u hu => ?_, fun _ e he => (nomatch he)⟩
  cases hu
  rw [h]

theorem tracks_error {f : α → β} (e : Fault) : Tracks exact f (.error e) (.error e) :=
  ⟨fun _ hv => (nomatch hv), fun _ _ he => by cases he; rfl⟩

theorem Tracks.bind {f : α → β} {g : γ → δ} {x : Except Fault α} {y : Except Fault β}
    {k : α → Except Fault γ} {k' : β → Except Fault δ} (h : Tracks exact f x y)
    (hk : ∀ v, Tracks exact g (k v) (k' (f v))) : Tracks exact g (x >>= k) (y >>= k') := by
  cases x with
  | ok v =>
    rw [h.1 v rfl]
    exact hk v
  | error e =>
    refine ⟨fun _ hv => (nomatch hv), fun hexact e' he => ?_⟩
    cases he
    rw [h.2 hexact e rfl]
    rfl

/-- A computation that both have in common. -/
theorem tracks_bind_same {g : γ → δ} {k : α → Except Fault γ} {k' : α → Except Fault δ}
    (x : Except Fault α) (hk : ∀ v, Tracks exact g (k v) (k' v)) :
    Tracks exact g (x >>= k) (x >>= k') := by
  cases x with
  | ok v => exact hk v
  | error e => exact tracks_error e

end Tracks

/-- A map from the parts of one assembly to those of another that keeps plain values and lists.  It
says nothing of records: a cut goes through them. -/
structure Assembly.IsMap {α β : Type} (a : Assembly α) (b : Assembly β) (f : α → β) : Prop where
  plain : ∀ v, f (a.plain v) = b.plain v
  list : ∀ items, f (a.list items) = b.list (items.map f)

section Parts

variable {α β : Type} {a : Assembly α} {b : Assembly β} {f g : α → β} {exact : Prop}
  {classes : String → List ClassDecl} {r : PayloadRules} {limit : Nat}
  {nested : ClassDecl → Inquiry α} {nested' : ClassDecl → Inquiry β}

theorem tracks_times {q : Inquiry α} {q' : Inquiry β}
    (h : Tracks exact f (q.answer classes) (q'.answer classes)) (n : Nat) :
    Tracks exact (List.map f) ((times q n).answer classes) ((times q' n).answer classes) := by
  induction n with
  | zero => exact tracks_ok rfl
  | succ n ih =>
    simp only [times, Inquiry.answer_seq]
    exact h.bind fun v => ih.bind fun vs => tracks_ok rfl

/-- Nested classes change by `f`. -/
def NestedTracks (exact : Prop) (classes : String → List ClassDecl) (f : α → β)
    (nested : ClassDecl → Inquiry α) (nested' : ClassDecl → Inquiry β) : Prop :=
  ∀ c, Tracks exact f ((nested c).answer classes) ((nested' c).answer classes)

theorem tracks_classPart (hf : a.IsMap b f)
    (hnested : NestedTracks exact classes f nested nested') (facts : FieldFacts)
    (target : Option ClassDecl) :
    Tracks exact f ((r.classPart a limit nested facts target).answer classes)
      ((r.classPart b limit nested' facts target).answer classes) := by
  cases target with
  | none => exact tracks_ok (hf.plain _)
  | some c =>
    simp only [classPart, Inquiry.answer_seq]
    refine tracks_bind_same _ fun isStructured => ?_
    cases isStructured with
    | false => exact tracks_ok (hf.plain _)
    | true => exact hnested c

mutual

/-- Two ways to build a part that agree on nested classes agree on the part. -/
theorem tracks_partOf (hf : a.IsMap b f)
    (hnested : NestedTracks exact classes f nested nested') : ∀ t : FieldType,
    Tracks exact f ((r.partOf a limit nested t).answer classes)
      ((r.partOf b limit nested' t).answer classes)
  | .mk facts element fixed => by
    unfold partOf
    simp only [Inquiry.answer_seq, Inquiry.answer_lift]
    refine tracks_bind_same _ fun settled => ?_
    cases settled with
    | some v => exact tracks_ok (hf.plain v)
    | none =>
      simp only [Inquiry.answer_seq]
      refine tracks_bind_same _ fun target => tracks_bind_same _ fun first => ?_
      cases first with
      | some v => exact tracks_ok (hf.plain v)
      | none =>
        by_cases harray : facts.isArray
        · simp only [if_pos harray]
          cases fixed with
          | some es =>
            simp only [Inquiry.answer_seq]
            exact (tracks_elementParts hf hnested es).bind fun items => tracks_ok (hf.list items)
          | none =>
            simp only [Inquiry.answer_seq]
            exact (tracks_times (tracks_someElement hf hnested element) _).bind
              fun items => tracks_ok (hf.list items)
        · simp only [if_neg harray]
          exact tracks_classPart hf hnested facts target

theorem tracks_someElement (hf : a.IsMap b f)
    (hnested : NestedTracks exact classes f nested nested') : ∀ element : Option ElementType,
    Tracks exact f ((r.someElement a limit nested element).answer classes)
      ((r.someElement b limit nested' element).answer classes)
  | none => tracks_ok (hf.plain _)
  | some e => tracks_elementPart hf hnested e

theorem tracks_elementPart (hf : a.IsMap b f)
    (hnested : NestedTracks exact classes f nested nested') : ∀ e : ElementType,
    Tracks exact f ((r.elementPart a limit nested e).answer classes)
      ((r.elementPart b limit nested' e).answer classes)
  | .mk _ (.ok t) => by
    simp only [elementPart, Inquiry.answer_seq, Inquiry.answer_lift]
    exact tracks_bind_same _ fun _ => tracks_bind_same _ fun _ => tracks_partOf hf hnested t
  | .mk _ (.error e) => by
    simp only [elementPart, Inquiry.answer_seq]
    exact tracks_bind_same _ fun _ => tracks_error e

theorem tracks_elementParts (hf : a.IsMap b f)
    (hnested : NestedTracks exact classes f nested nested') : ∀ es : List ElementType,
    Tracks exact (List.map f) ((r.elementParts a limit nested es).answer classes)
      ((r.elementParts b limit nested' es).answer classes)
  | [] => tracks_ok rfl
  | e :: es => by
    rw [elementParts, elementParts]
    simp only [Inquiry.answer_seq]
    exact (tracks_elementPart hf hnested e).bind fun v =>
      (tracks_elementParts hf hnested es).bind fun vs => tracks_ok rfl

end

/-- Two ways to build a payload that agree on nested classes agree on all its parts. -/
theorem tracks_partsOf (hf : a.IsMap b f)
    (hnested : NestedTracks exact classes f nested nested') (total : Bool)
    (fields : Ordered PropertyDecl) :
    Tracks exact (List.map fun part => (part.1, f part.2))
      ((r.partsOf a limit nested total fields).answer classes)
      ((r.partsOf b limit nested' total fields).answer classes) := by
  induction fields with
  | nil => exact tracks_ok rfl
  | cons field fields ih =>
    obtain ⟨name, p⟩ := field
    simp only [partsOf]
    by_cases hname : Text.startsWith name "_" = true
    · simp only [if_pos hname]
      exact ih
    · simp only [if_neg hname, Inquiry.answer_seq, Inquiry.answer_lift]
      refine tracks_bind_same _ fun _ => tracks_bind_same _ fun t => ?_
      by_cases hrequired : isRequired total t.facts = true
      · simp only [if_pos hrequired, Inquiry.answer_seq]
        refine tracks_bind_same _ fun _ => ?_
        exact (tracks_partOf hf hnested t).bind fun v => ih.bind fun parts => tracks_ok rfl
      · simp only [if_neg hrequired]
        exact ih

/-- The record of a class changes by `g` when its parts change by `f`. -/
theorem tracks_recordWith (hf : a.IsMap b f)
    (hnested : NestedTracks exact classes f nested nested')
    (hg : ∀ parts, g (a.record parts) = b.record (parts.map fun part => (part.1, f part.2)))
    (c : ClassDecl) :
    Tracks exact g ((r.recordWith a limit nested c).answer classes)
      ((r.recordWith b limit nested' c).answer classes) := by
  simp only [recordWith, Inquiry.answer_seq]
  exact tracks_bind_same _ fun fields =>
    (tracks_partsOf hf hnested _ fields).bind fun parts => tracks_ok (hg parts)

end Parts

/-! ## Outlines and values -/

theorem isMap_toValue : Assembly.outlines.IsMap .values Outline.toValue where
  plain _ := by simp [Assembly.outlines, Assembly.values, Outline.toValue]
  list _ := by simp [Assembly.outlines, Assembly.values, Outline.toValue]

theorem isMap_truncate (n : Nat) : Assembly.outlines.IsMap .outlines (Outline.truncate n) where
  plain _ := by simp [Assembly.outlines, Outline.truncate]
  list _ := by simp [Assembly.outlines, Outline.truncate]

section Depth

variable {classes : String → List ClassDecl} {r : PayloadRules} {limit : Nat}

/-- A payload is the value of its outline, faults included. -/
theorem tracks_toValue (depth maxDepth : Int) (c : ClassDecl) :
    Tracks True Outline.toValue ((r.recordAt .outlines limit depth maxDepth c).answer classes)
      ((r.payload limit depth maxDepth c).answer classes) := by
  rw [payload, recordAt, recordAt]
  refine tracks_recordWith isMap_toValue (fun n => ?_) (fun parts => ?_) c
  · by_cases hdepth : maxDepth ≤ depth
    · simp only [if_pos hdepth]
      exact tracks_ok (by simp [Assembly.outlines, Assembly.values, Outline.toValue])
    · simp only [if_neg hdepth]
      exact tracks_toValue (depth + 1) maxDepth n
  · simp [Assembly.outlines, Assembly.values, Outline.toValue]
termination_by (maxDepth - depth).toNat
decreasing_by omega

/-- The outline of a class is a record. -/
theorem exists_record {nested : ClassDecl → Inquiry Outline} {c : ClassDecl} {o : Outline}
    (h : (r.recordWith .outlines limit nested c).answer classes = .ok o) :
    ∃ parts, o = .record parts := by
  simp only [recordWith, Inquiry.answer_seq] at h
  obtain ⟨fields, -, h⟩ := bind_eq_ok_iff.1 h
  obtain ⟨parts, -, h⟩ := bind_eq_ok_iff.1 h
  cases h
  exact ⟨parts, rfl⟩

/-- One level less is a cut below the last level. -/
theorem tracks_truncate (n : Nat) (depth : Int) (c : ClassDecl) :
    Tracks False (Outline.truncate (n + 1))
      ((r.recordAt .outlines limit depth (depth + n + 1) c).answer classes)
      ((r.recordAt .outlines limit depth (depth + n) c).answer classes) := by
  have hrecord (n : Nat) (parts : List (String × Outline)) :
      Outline.truncate (n + 1) (Assembly.outlines.record parts) =
        Assembly.outlines.record (parts.map fun part => (part.1, part.2.truncate n)) := by
    simp [Assembly.outlines, Outline.truncate]
  induction n generalizing depth c with
  | zero =>
    rw [recordAt, recordAt]
    refine tracks_recordWith (isMap_truncate 0) (fun nested => ?_) (hrecord 0) c
    rw [if_neg (by omega), if_pos (by omega)]
    -- A record of any size is cut to the empty one.
    refine ⟨fun o ho => ?_, False.elim⟩
    rw [recordAt] at ho
    obtain ⟨parts, rfl⟩ := exists_record ho
    simp [Assembly.outlines, Outline.truncate]
  | succ n ih =>
    rw [recordAt, recordAt]
    refine tracks_recordWith (isMap_truncate (n + 1)) (fun nested => ?_) (hrecord (n + 1)) c
    rw [if_neg (by omega), if_neg (by omega)]
    have hdepth : depth + (n + 1 : Nat) = depth + 1 + n := by omega
    rw [hdepth]
    exact ih (depth + 1) nested

/-- Only the number of levels that are left matters. -/
theorem recordAt_congr {α : Type} (a : Assembly α) {depth maxDepth depth' maxDepth' : Int}
    (h : max 0 (maxDepth - depth) = max 0 (maxDepth' - depth')) (c : ClassDecl) :
    r.recordAt a limit depth maxDepth c = r.recordAt a limit depth' maxDepth' c := by
  rw [recordAt, recordAt]
  congr 1
  funext nested
  by_cases hdepth : maxDepth ≤ depth
  · rw [if_pos hdepth, if_pos (by omega)]
  · rw [if_neg hdepth, if_neg (by omega)]
    exact recordAt_congr a (by omega) nested
termination_by (maxDepth - depth).toNat
decreasing_by omega

end Depth

/-- A payload of depth `d` is the one of depth `d + 1` with the records of classes at level `d + 1`
left empty, and a payload depends on its depth and the greatest depth only through the number of
levels between them. -/
theorem payload_truncates (r : PayloadRules) (limit : Nat) (classes : String → List ClassDecl)
    (c : ClassDecl) :
    (∀ (d : Nat) (v : Value), (r.payload limit 0 (d + 1) c).answer classes = .ok v →
      ∃ o : Outline, (r.recordAt .outlines limit 0 (d + 1) c).answer classes = .ok o ∧
        o.toValue = v ∧
        (r.payload limit 0 d c).answer classes = .ok (o.truncate (d + 1)).toValue) ∧
    ∀ depth maxDepth depth' maxDepth' : Int,
      max 0 (maxDepth - depth) = max 0 (maxDepth' - depth') →
      r.payload limit depth maxDepth c = r.payload limit depth' maxDepth' c := by
  refine ⟨fun d v hv => ?_, fun depth maxDepth depth' maxDepth' h => recordAt_congr .values h c⟩
  have hsame : Tracks True Outline.toValue ((r.recordAt .outlines limit 0 (d + 1) c).answer classes)
      ((r.payload limit 0 (d + 1) c).answer classes) := tracks_toValue 0 (d + 1) c
  cases ho : (r.recordAt .outlines limit 0 (d + 1) c).answer classes with
  | error e =>
    have hfault := hsame.2 trivial e ho
    rw [hv] at hfault
    cases hfault
  | ok o =>
    have hvalue := hsame.1 o ho
    rw [hv] at hvalue
    have hcut := (tracks_truncate d 0 c).1 o (by simpa using ho)
    rw [Int.zero_add] at hcut
    exact ⟨o, rfl, (Except.ok.inj hvalue).symm, (tracks_toValue 0 d c).1 _ hcut⟩

/-- A class with a list of its own kind. -/
def linked (name : String) : List ClassDecl :=
  let unit := SourceUnit.ofText ⟨"/", ["m.py"]⟩ "class Node:\n    peers: list[Node]\n"
  (unit.toOption.bind (·.findClass? name)).toList

end PayloadRules

end

namespace PayloadRules

/-- The list of a node ends one level earlier. -/
theorem payload_truncates_linked :
    let rules : PayloadRules := ⟨5, [], []⟩
    let d : Nat := 1
    ∃ c v o, (linked "Node").head? = some c ∧
      (rules.payload 1 0 (d + 1) c).answer linked = .ok v ∧
      (v matches .dict [(_, .list [.dict [(_, .list [.dict [(_, .list [.dict []])]])]])]) = true ∧
      (rules.recordAt .outlines 1 0 (d + 1) c).answer linked = .ok o ∧ o.toValue = v ∧
      (rules.payload 1 0 d c).answer linked = .ok (o.truncate (d + 1)).toValue ∧
      rules.payload 1 5 6 c = rules.payload 1 0 1 c := by
  intro rules d
  have hchecked : ((linked "Node").head?.any fun c =>
      ((rules.payload 1 0 (d + 1) c).answer linked).toOption.any fun v =>
        v matches .dict [(_, .list [.dict [(_, .list [.dict [(_, .list [.dict []])]])]])]) =
      true := by decide +kernel
  obtain ⟨c, hc, hchecked⟩ := (Option.any_eq_true _ _).1 hchecked
  obtain ⟨v, hv, hshape⟩ := exists_ok_of_any hchecked
  obtain ⟨hcut, hlevels⟩ := payload_truncates rules 1 linked c
  obtain ⟨o, ho, hvalue, hpayload⟩ := hcut d v hv
  exact ⟨c, v, o, hc, hv, hshape, ho, hvalue, hpayload, hlevels 5 6 0 1 (by decide)⟩

end PayloadRules

end RouteLens
