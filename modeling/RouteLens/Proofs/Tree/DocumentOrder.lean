import RouteLens.Grammar.Statement
import RouteLens.Tree.Traversal

/-!
# Document order is the order of places

A tree is well nested if every construct starts no later than its parts, and of two parts of one
construct all of one starts before all of the other.  Sorting the parts of each construct by
themselves then sorts the whole traversal (`descendantsBy_sorted`), whichever constructs have a
place and in whatever order the grammar lists the parts.
-/

namespace RouteLens

namespace Node

variable (start? : Node → Option Position)

/-- A construct or one of its parts starts at a place. -/
inductive StartsIn (p : Position) : Node → Prop
  | own {n : Node} (h : start? n = some p) : StartsIn p n
  | part {n : Node} {c : Child} (hc : c ∈ n.children) (h : StartsIn p c.node) : StartsIn p n

/-- Every start in one construct stands before every start in the other. -/
def Precedes (m n : Node) : Prop :=
  ∀ p q, StartsIn start? p m → StartsIn start? q n → p.Before q

/-- Two constructs do not overlap. -/
def Apart (m n : Node) : Prop :=
  Precedes start? m n ∨ Precedes start? n m

/-- A construct starts no later than its parts, its direct parts do not overlap, and each of them is
well nested. -/
inductive WellNested : Node → Prop
  | intro {n : Node} (first : ∀ p q, start? n = some p → StartsIn start? q n → p.le q = true)
      (apart : n.children.Pairwise fun c d => Apart start? c.node d.node)
      (parts : ∀ c ∈ n.children, WellNested c.node) : WellNested n

variable {start?}

/-! ## Places -/

theorem mem_places {p : Position} (n : Node) : p ∈ places start? n ↔ StartsIn start? p n := by
  rw [places_eq, List.mem_append, Option.mem_toList, List.mem_flatMap]
  constructor
  · rintro (h | ⟨c, hc, h⟩)
    · exact .own h
    · exact .part hc ((mem_places c.node).1 h)
  · intro h
    cases h with
    | own h => exact .inl h
    | part hc h => exact .inr ⟨_, hc, (mem_places _).2 h⟩
termination_by sizeOf n
decreasing_by all_goals exact sizeOf_lt_of_mem_children ‹_›

theorem foldl_earlier_mem (p : Position) (ps : List Position) :
    ps.foldl Position.earlier p ∈ p :: ps := by
  induction ps generalizing p with
  | nil => exact List.mem_cons_self
  | cons q ps ih =>
    have hmem := ih (p.earlier q)
    unfold Position.earlier at hmem ⊢
    split at hmem <;> grind

theorem startsIn_of_reference? {p : Position} {n : Node} (h : reference? start? n = some p) :
    StartsIn start? p n := by
  unfold reference? at h
  split at h
  · rename_i q hq
    cases h
    exact .own hq
  · rw [← mem_places]
    cases hplaces : places start? n with
    | nil => simp [hplaces, earliest?] at h
    | cons q qs =>
      simp only [hplaces, earliest?, Option.some.injEq] at h
      exact h ▸ foldl_earlier_mem q qs

/-- A construct with a start in it is ordered by one of its starts. -/
theorem exists_reference? {p : Position} {n : Node} (h : StartsIn start? p n) :
    ∃ q, reference? start? n = some q := by
  unfold reference?
  split
  · exact ⟨_, rfl⟩
  · rw [← mem_places] at h
    cases hplaces : places start? n with
    | nil => simp [hplaces] at h
    | cons q qs => exact ⟨_, rfl⟩

/-! ## Order of the direct parts -/

theorem reference?_of_mem_keyed {last p q : Position} {c : Child} {cs : List Child}
    (h : (p, c) ∈ keyed start? last cs) (hq : reference? start? c.node = some q) : p = q := by
  induction cs generalizing last with
  | nil => simp [keyed] at h
  | cons d ds ih =>
    simp only [keyed, List.mem_cons, Prod.mk.injEq] at h
    rcases h with ⟨hp, rfl⟩ | h
    · simpa [hq] using hp
    · exact ih h

theorem startsIn_of_mem_keyed {last p q : Position} {c : Child} {cs : List Child}
    (h : (p, c) ∈ keyed start? last cs) (hq : StartsIn start? q c.node) :
    StartsIn start? p c.node := by
  obtain ⟨r, hr⟩ := exists_reference? hq
  rw [reference?_of_mem_keyed h hr]
  exact startsIn_of_reference? hr

theorem Apart.symm {m n : Node} (h : Apart start? m n) : Apart start? n m :=
  Or.symm h

/-- Of two parts that do not overlap, the one that is ordered first comes first as a whole. -/
theorem Apart.precedes {last p q : Position} {c d : Child} {cs : List Child}
    (h : Apart start? c.node d.node) (hc : (p, c) ∈ keyed start? last cs)
    (hd : (q, d) ∈ keyed start? last cs) (hpq : p.le q = true) :
    Precedes start? c.node d.node := by
  rcases h with h | h
  · exact h
  · intro p' q' hp' hq'
    have hbefore := h q p (startsIn_of_mem_keyed hd hq') (startsIn_of_mem_keyed hc hp')
    exact absurd hpq hbefore.not_le

theorem orderedChildren_pairwise {n : Node}
    (h : n.children.Pairwise fun c d => Apart start? c.node d.node) :
    (orderedChildren start? n).Pairwise fun c d => Precedes start? c.node d.node := by
  let parts := keyed start? ⟨0, 0⟩ n.children
  let le (a b : Position × Child) : Bool := a.1.le b.1
  have hkeyed : parts.Pairwise fun a b => Apart start? a.2.node b.2.node := by
    rw [← map_snd_keyed start? ⟨0, 0⟩ n.children, List.pairwise_map] at h
    exact h
  have hapart : (sortBy le parts).Pairwise fun a b => Apart start? a.2.node b.2.node :=
    (sortBy_perm le parts).symm.pairwise hkeyed fun h => h.symm
  have hsorted := sortBy_pairwise le (fun _ _ _ => Position.le_trans)
    (fun a b => a.1.le_total b.1) hkeyed
  rw [orderedChildren, List.pairwise_map]
  refine (hapart.and hsorted).imp_of_mem fun ha hb hab => ?_
  rw [(sortBy_perm le parts).mem_iff] at ha hb
  exact hab.1.precedes ha hb hab.2.1

/-! ## Order of the traversal -/

/-- The starts in the parts of a construct, in the order of the traversal. -/
def traversedStarts (start? : Node → Option Position) (trail : List Step) (n : Node) :
    List Position :=
  ((occurrencesBy start? trail n).map Occurrence.node).filterMap start?

theorem traversedStarts_eq (trail : List Step) (n : Node) :
    traversedStarts start? trail n = (orderedChildren start? n).flatMap fun c =>
      (start? c.node).toList ++ traversedStarts start? (⟨n, c.role⟩ :: trail) c.node := by
  rw [traversedStarts, occurrencesBy_eq, List.map_flatMap, List.filterMap_flatMap]
  congr 1
  funext c
  cases hc : start? c.node <;> simp [traversedStarts, hc]

theorem startsIn_of_mem_traversedStarts {p : Position} (n : Node) {trail : List Step}
    (h : p ∈ traversedStarts start? trail n) : StartsIn start? p n := by
  rw [traversedStarts_eq, List.mem_flatMap] at h
  obtain ⟨c, hc, h⟩ := h
  have hpart := (mem_orderedChildren start?).1 hc
  rcases List.mem_append.1 h with h | h
  · exact .part hpart (.own (Option.mem_toList.1 h))
  · exact .part hpart (startsIn_of_mem_traversedStarts c.node h)
termination_by sizeOf n
decreasing_by exact sizeOf_lt_of_mem_children hpart

/-- In a well-nested tree the traversal comes by the starts in order. -/
theorem WellNested.traversedStarts_sorted {n : Node} (h : WellNested start? n)
    (trail : List Step) :
    (traversedStarts start? trail n).Pairwise fun p q => p.le q = true := by
  induction h generalizing trail with
  | @intro n first apart parts ih =>
    rw [traversedStarts_eq, List.pairwise_flatMap]
    constructor
    · -- Within one part: it starts first, and its own parts are sorted.
      intro c hc
      have hpart := (mem_orderedChildren start?).1 hc
      rw [List.pairwise_append]
      refine ⟨by cases start? c.node <;> simp, ih c hpart _, fun p hp q hq => ?_⟩
      cases parts c hpart with
      | intro first =>
        exact first p q (Option.mem_toList.1 hp) (startsIn_of_mem_traversedStarts _ hq)
    · -- Between two parts: all of the first one stands before all of the second one.
      refine (orderedChildren_pairwise apart).imp fun {c d} hcd p hp q hq => ?_
      have hstart : ∀ {c : Child} {p : Position},
          p ∈ (start? c.node).toList ++ traversedStarts start? (⟨n, c.role⟩ :: trail) c.node →
            StartsIn start? p c.node := by
        intro c p hp
        rcases List.mem_append.1 hp with hp | hp
        · exact .own (Option.mem_toList.1 hp)
        · exact startsIn_of_mem_traversedStarts _ hp
      exact (hcd p q (hstart hp) (hstart hq)).le

/-- The starts met by a traversal of a well-nested construct never go back. -/
theorem descendantsBy_sorted {n : Node} (h : WellNested start? n) :
    ((descendantsBy start? n).filterMap start?).Pairwise fun p q => p.le q = true :=
  h.traversedStarts_sorted []

/-! ## Checking that a construct is well nested -/

theorem precedes_iff {m n : Node} :
    Precedes start? m n ↔ ∀ p ∈ places start? m, ∀ q ∈ places start? n, p.Before q := by
  simp only [Precedes, mem_places]
  exact ⟨fun h p hp q hq => h p q hp hq, fun h p q hp hq => h p hp q hq⟩

instance (m n : Node) : Decidable (Precedes start? m n) :=
  decidable_of_iff _ precedes_iff.symm

instance (m n : Node) : Decidable (Apart start? m n) :=
  inferInstanceAs (Decidable (_ ∨ _))

theorem wellNested_iff {n : Node} : WellNested start? n ↔
    (∀ p ∈ (start? n).toList, ∀ q ∈ places start? n, p.le q = true) ∧
      (n.children.Pairwise fun c d => Apart start? c.node d.node) ∧
      ∀ c ∈ n.children.attach, WellNested start? c.val.node := by
  constructor
  · rintro ⟨first, apart, parts⟩
    exact ⟨fun p hp q hq => first p q (Option.mem_toList.1 hp) ((mem_places n).1 hq), apart,
      fun c _ => parts c.val c.property⟩
  · rintro ⟨first, apart, parts⟩
    exact ⟨fun p q hp hq => first p (Option.mem_toList.2 hp) q ((mem_places n).2 hq), apart,
      fun c hc => parts ⟨c, hc⟩ (List.mem_attach _ _)⟩

/-- Whether a construct is well nested can be computed. -/
def decideWellNested (n : Node) : Decidable (WellNested start? n) :=
  have (c : { c // c ∈ n.children }) : Decidable (WellNested start? c.val.node) :=
    decideWellNested c.val.node
  decidable_of_iff _ wellNested_iff.symm
termination_by sizeOf n
decreasing_by exact sizeOf_lt_of_mem_children c.property

instance (n : Node) : Decidable (WellNested start? n) :=
  decideWellNested n

/-- The grammar lists the test of a choice before its outcome, and the clause of a list has no
place; the expression is well nested, and its parts are met in order. -/
theorem descendantsBy_sorted_choice :
    ∃ e, readExpr "[y for x in b] if c else a" = .ok e ∧ WellNested Node.start? (.expr e) ∧
      ((Node.expr e).descendants.filterMap Node.start?).Pairwise fun p q => p.le q = true := by
  have hcheck : (readExpr "[y for x in b] if c else a").toOption.any
      (fun e => decide (WellNested Node.start? (.expr e))) = true := by
    decide +kernel
  cases he : readExpr "[y for x in b] if c else a" with
  | error f => simp [he, Except.toOption] at hcheck
  | ok e =>
    have hnested : WellNested Node.start? (.expr e) := by simpa [he, Except.toOption] using hcheck
    exact ⟨e, rfl, hnested, descendantsBy_sorted hnested⟩

end Node

end RouteLens
