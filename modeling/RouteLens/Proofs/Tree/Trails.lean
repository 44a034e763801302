import RouteLens.Source.Declaration

/-!
# Trails

The trail of an occurrence is a chain of steps from a part to its whole (`Leads`), and the traversal
of a construct meets exactly the constructs that such chains lead to.  A trail can therefore be cut
at any step: the part below it is a trail inside the construct at the cut, and the part above it is
the trail of that construct.  A loop around an occurrence is such a cut.
-/

namespace RouteLens

namespace Node

/-- A trail leads from a construct in to one of its parts, or to the construct itself. -/
inductive Leads (n : Node) : List Step → Node → Prop
  | here : Leads n [] n
  | part {trail : List Step} {m : Node} {c : Child} (h : Leads n trail m) (hc : c ∈ m.children) :
      Leads n (⟨m, c.role⟩ :: trail) c.node

variable {start? : Node → Option Position} {l m n : Node}

namespace Leads

theorem trans {inner outer : List Step} (hinner : Leads m inner n) (houter : Leads l outer m) :
    Leads l (inner ++ outer) n := by
  induction hinner with
  | here => exact houter
  | part _ hc ih => exact ih.part hc

/-- A trail can be cut anywhere. -/
theorem cut {inner outer : List Step} (h : Leads l (inner ++ outer) n) :
    ∃ m, Leads l outer m ∧ Leads m inner n := by
  induction inner generalizing n with
  | nil => exact ⟨n, h, .here⟩
  | cons s inner ih =>
    cases h with
    | part h hc =>
      obtain ⟨m, houter, hinner⟩ := ih h
      exact ⟨m, houter, hinner.part hc⟩

/-- The first step of a trail goes to a part of the construct that the rest leads to. -/
theorem of_cons {s : Step} {outer : List Step} (h : Leads l (s :: outer) n) :
    Leads l outer s.parent ∧ ∃ c ∈ s.parent.children, s.role = c.role ∧ n = c.node := by
  cases h with
  | part h hc => exact ⟨h, _, hc, rfl, rfl⟩

end Leads

/-! ## Traversals -/

theorem leads_of_mem_occurrencesBy {trail : List Step} {o : Occurrence} (n : Node)
    (h : o ∈ occurrencesBy start? trail n) :
    ∃ inner, inner ≠ [] ∧ o.trail = inner ++ trail ∧ Leads n inner o.node := by
  rw [occurrencesBy_eq, List.mem_flatMap] at h
  obtain ⟨c, hc, h⟩ := h
  have hpart := (mem_orderedChildren start?).1 hc
  have hstep : Leads n [⟨n, c.role⟩] c.node := Leads.here.part hpart
  rcases List.mem_cons.1 h with rfl | h
  · exact ⟨_, List.cons_ne_nil _ _, rfl, hstep⟩
  · obtain ⟨inner, -, htrail, hleads⟩ := leads_of_mem_occurrencesBy c.node h
    exact ⟨inner ++ [⟨n, c.role⟩], by simp, by simp [htrail], hleads.trans hstep⟩
termination_by sizeOf n
decreasing_by exact sizeOf_lt_of_mem_children hpart

theorem child_mem_occurrencesBy {c : Child} (trail : List Step) (hc : c ∈ n.children) :
    ⟨c.node, ⟨n, c.role⟩ :: trail⟩ ∈ occurrencesBy start? trail n := by
  rw [occurrencesBy_eq, List.mem_flatMap]
  exact ⟨c, (mem_orderedChildren start?).2 hc, List.mem_cons_self⟩

/-- A traversal that meets a construct meets its parts. -/
theorem mem_occurrencesBy_of_mem_children {trail : List Step} {o : Occurrence} {c : Child}
    (n : Node) (h : o ∈ occurrencesBy start? trail n) (hc : c ∈ o.node.children) :
    ⟨c.node, ⟨o.node, c.role⟩ :: o.trail⟩ ∈ occurrencesBy start? trail n := by
  rw [occurrencesBy_eq, List.mem_flatMap] at h ⊢
  obtain ⟨d, hd, h⟩ := h
  have hpart := (mem_orderedChildren start?).1 hd
  refine ⟨d, hd, List.mem_cons_of_mem _ ?_⟩
  rcases List.mem_cons.1 h with rfl | h
  · exact child_mem_occurrencesBy _ hc
  · exact mem_occurrencesBy_of_mem_children d.node h hc
termination_by sizeOf n
decreasing_by exact sizeOf_lt_of_mem_children hpart

theorem Leads.mem_occurrencesBy {inner : List Step} (h : Leads l inner n) (hne : inner ≠ [])
    (trail : List Step) : ⟨n, inner ++ trail⟩ ∈ occurrencesBy start? trail l := by
  induction h with
  | here => exact absurd rfl hne
  | @part outer m c h hc ih =>
    by_cases houter : outer = []
    · subst houter
      cases h
      exact child_mem_occurrencesBy trail hc
    · exact mem_occurrencesBy_of_mem_children l (ih houter) hc

/-- A traversal meets what trails lead to. -/
theorem mem_occurrencesBy_iff {trail : List Step} {o : Occurrence} :
    o ∈ occurrencesBy start? trail n ↔
      ∃ inner, inner ≠ [] ∧ o.trail = inner ++ trail ∧ Leads n inner o.node := by
  refine ⟨leads_of_mem_occurrencesBy n, ?_⟩
  rintro ⟨inner, hne, htrail, h⟩
  have hmem : ⟨o.node, inner ++ trail⟩ ∈ occurrencesBy start? trail n :=
    h.mem_occurrencesBy hne trail
  rwa [← htrail] at hmem

end Node

namespace MethodDecl

/-- The step from a statement of the body out to the method. -/
def outStep (m : MethodDecl) : Step :=
  ⟨.stmt m.stmt, .plain⟩

/-- The traversal of a method meets what trails lead to from the statements of its body. -/
theorem mem_occurrences_iff {m : MethodDecl} {o : Occurrence} :
    o ∈ m.occurrences ↔
      ∃ s ∈ m.body, ∃ inner, o.trail = inner ++ [m.outStep] ∧
        Node.Leads (.stmt s) inner o.node := by
  rw [occurrences, List.mem_flatMap]
  refine exists_congr fun s => and_congr_right fun _ => ?_
  rw [List.mem_cons, Node.occurrences, Node.mem_occurrencesBy_iff]
  constructor
  · rintro (rfl | ⟨inner, -, h⟩)
    · exact ⟨[], rfl, .here⟩
    · exact ⟨inner, h⟩
  · rintro ⟨inner, htrail, h⟩
    by_cases hinner : inner = []
    · subst hinner
      obtain ⟨node, trail⟩ := o
      cases h
      exact .inl (by simpa [outStep] using htrail)
    · exact .inr ⟨inner, hinner, htrail, h⟩

end MethodDecl

/-! ## Loops along a trail -/

section Roles

variable {c : Child}

@[simp] theorem Role.repeats_plain (below : Option Role) : Role.plain.repeats below = false := rfl

@[simp] theorem Role.repeats_iterable (below : Option Role) :
    Role.iterable.repeats below = false := rfl

@[grind →] theorem Child.role_of_mem_exprParts {es : List Expr} (h : c ∈ exprParts es) :
    c.role = .plain := by
  obtain ⟨e, -, rfl⟩ := List.mem_map.1 h
  rfl

@[grind →] theorem Child.role_of_mem_optParts {e : Option Expr} (h : c ∈ optParts e) :
    c.role = .plain :=
  role_of_mem_exprParts h

@[grind →] theorem Child.role_of_mem_stmtParts {r : Role} {ss : List Stmt}
    (h : c ∈ stmtParts r ss) : c.role = r := by
  obtain ⟨s, -, rfl⟩ := List.mem_map.1 h
  rfl

@[grind =] theorem Child.role_plain (n : Node) : (Child.plain n).role = .plain := rfl

@[grind =] theorem Child.role_markPart (m : Mark) : (markPart m).role = .plain := rfl

/-- Only loops repeat their parts. -/
theorem Node.isLoop_of_repeats {n : Node} {below : Option Role} (hc : c ∈ n.children)
    (h : c.role.repeats below = true) : n.isLoop = true := by
  have hrole : c.role ≠ .plain ∧ c.role ≠ .iterable := by
    constructor <;> intro hrole <;> simp [hrole] at h
  match n with
  | .expr (.node _ f) =>
    cases f
    case listComp | setComp | dictComp | generator => rfl
    all_goals simp only [Node.children, ExprForm.children, exprParts_cons, exprParts_nil,
      List.mem_append, List.mem_cons, List.not_mem_nil, or_false, List.mem_map] at hc
    all_goals grind
  | .stmt (.node _ f) =>
    cases f
    case forLoop | whileLoop => rfl
    all_goals simp only [Node.children, StmtForm.children, exprParts_cons, exprParts_nil,
      List.mem_append, List.mem_cons, List.not_mem_nil, or_false, List.mem_map] at hc
    all_goals grind
  | .pattern (.node _ f) =>
    cases f
    all_goals simp only [Node.children, PatternForm.children, exprParts_cons, exprParts_nil,
      List.mem_append, List.mem_cons, List.not_mem_nil, or_false, List.mem_map] at hc
    all_goals grind
  | .params (.mk ..) =>
    simp only [Node.children, Params.children, List.mem_append, List.mem_map] at hc
    grind
  | .alias _ | .mark _ => simp [Node.children] at hc
  | .file _ | .keyword (.mk ..) | .clause (.mk ..) | .param (.mk ..) | .handler (.mk ..)
  | .withItem _ | .case (.mk ..) =>
    simp only [Node.children, exprParts_cons, exprParts_nil, List.mem_append, List.mem_cons,
      List.not_mem_nil, or_false] at hc
    grind

end Roles

namespace Occurrence

/-- A trail repeats what it leads to if it can be cut at a step that repeats what is below it. -/
theorem inLoopFrom_iff {below : Option Role} {trail : List Step} :
    inLoopFrom below trail = true ↔ ∃ inner s outer, trail = inner ++ s :: outer ∧
      s.role.repeats ((inner.getLast?.map Step.role).or below) = true := by
  induction trail generalizing below with
  | nil => simp [inLoopFrom]
  | cons s trail ih =>
    rw [inLoopFrom, Bool.or_eq_true, ih]
    constructor
    · rintro (h | ⟨inner, s', outer, rfl, h⟩)
      · exact ⟨[], s, trail, rfl, h⟩
      · refine ⟨s :: inner, s', outer, rfl, ?_⟩
        cases hlast : inner.getLast? <;> simpa [List.getLast?_cons, hlast] using h
    · rintro ⟨inner, s', outer, htrail, h⟩
      cases inner with
      | nil =>
        cases htrail
        exact .inl h
      | cons s'' inner =>
        cases htrail
        refine .inr ⟨inner, s', outer, rfl, ?_⟩
        cases hlast : inner.getLast? <;> simpa [List.getLast?_cons, hlast] using h

theorem inLoop_iff {o : Occurrence} :
    o.inLoop = true ↔ ∃ inner s outer, o.trail = inner ++ s :: outer ∧
      s.role.repeats (inner.getLast?.map Step.role) = true := by
  simp [inLoop, inLoopFrom_iff]

theorem repeatedByRoot_append (node : Node) (inner : List Step) (s : Step) :
    repeatedByRoot ⟨node, inner ++ [s]⟩ = s.role.repeats (inner.getLast?.map Step.role) := by
  simp [repeatedByRoot]

end Occurrence

end RouteLens
