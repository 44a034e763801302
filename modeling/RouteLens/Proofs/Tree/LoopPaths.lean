import RouteLens.Proofs.Tree.Addresses

/-!
# Loops and `raise` statements on the way down

Whether an occurrence is in a loop is read from the roles along its trail.  Here it is said of the
way down from the definition of the method: the numbers of the parts that are gone through.  A loop
on the way repeats what the way leads to if the way goes on to one of the parts that the loop runs
once per round (`Node.RunsPerRound`).  A construct is in a `raise` statement if one stands on the
way above it.
-/

namespace RouteLens

/-- The elements and the clauses of a comprehension. -/
def Expr.comprehension? : Expr → Option (List Expr × List Clause)
  | .node _ (.listComp element clauses) => some ([element], clauses)
  | .node _ (.setComp element clauses) => some ([element], clauses)
  | .node _ (.dictComp key value clauses) => some ([key, value], clauses)
  | .node _ (.generator element clauses) => some ([element], clauses)
  | _ => none

namespace Node

/-- A way down from a loop leads to what the loop runs once per round.  A `for` loop has its target
and its iterable before its body, and a `while` loop its test.  A comprehension has its elements
before its clauses, and a clause has its target before its iterable. -/
inductive RunsPerRound : Node → List Nat → Prop
  | forBody {span : Span} {isAsync : Bool} {target iter : Expr} {body orelse : List Stmt} {i : Nat}
      {rest : List Nat} (hlow : 2 ≤ i) (hi : i < 2 + body.length) :
      RunsPerRound (.stmt (.node span (.forLoop isAsync target iter body orelse))) (i :: rest)
  | whileTest {span : Span} {test : Expr} {body orelse : List Stmt} {rest : List Nat} :
      RunsPerRound (.stmt (.node span (.whileLoop test body orelse))) (0 :: rest)
  | whileBody {span : Span} {test : Expr} {body orelse : List Stmt} {i : Nat} {rest : List Nat}
      (hlow : 1 ≤ i) (hi : i < 1 + body.length) :
      RunsPerRound (.stmt (.node span (.whileLoop test body orelse))) (i :: rest)
  | comprehension {e : Expr} {elements : List Expr} {clauses : List Clause} {i : Nat}
      {rest : List Nat} (he : e.comprehension? = some (elements, clauses))
      (h : ¬ (i = elements.length ∧ rest.head? = some 1)) : RunsPerRound (.expr e) (i :: rest)

theorem RunsPerRound.isLoop {n : Node} {address : List Nat} (h : RunsPerRound n address) :
    n.isLoop = true := by
  cases h with
  | forBody | whileTest | whileBody => rfl
  | comprehension he =>
    unfold Expr.comprehension? at he
    split at he
    case h_5 => cases he
    all_goals rfl

theorem RunsPerRound.ne_nil {n : Node} {address : List Nat} (h : RunsPerRound n address) :
    address ≠ [] := by
  cases h <;> exact List.cons_ne_nil _ _

/-- The role of the part that a way down from a construct goes to first. -/
def firstRole? (n : Node) (address : List Nat) : Option Role :=
  address.head?.bind fun i => n.children[i]?.map Child.role

/-! ## The parts of a loop -/

section Parts

variable {c : Child} {i : Nat} {rest : List Nat}

/-- A body that is repeated, and after it one that is not. -/
theorem repeats_stmtParts {body orelse : List Stmt} {below : Option Role}
    (hc : (stmtParts .repeated body ++ stmtParts .plain orelse)[i]? = some c) :
    c.role.repeats below = true ↔ i < body.length := by
  have hlength : (stmtParts .repeated body).length = body.length := List.length_map _
  by_cases hi : i < body.length
  · rw [List.getElem?_append_left (by omega)] at hc
    simp [Child.role_of_mem_stmtParts (List.mem_of_getElem? hc), Role.repeats, hi]
  · rw [List.getElem?_append_right (by omega)] at hc
    simp [Child.role_of_mem_stmtParts (List.mem_of_getElem? hc), hi]

/-- A loop over values repeats its body only. -/
theorem repeats_forLoop {span : Span} {isAsync : Bool} {target iter : Expr}
    {body orelse : List Stmt} {below : Option Role}
    (hc : (StmtForm.forLoop isAsync target iter body orelse).children[i]? = some c) :
    c.role.repeats below = true ↔
      RunsPerRound (.stmt (.node span (.forLoop isAsync target iter body orelse))) (i :: rest) := by
  have hruns : RunsPerRound (.stmt (.node span (.forLoop isAsync target iter body orelse)))
      (i :: rest) ↔ 2 ≤ i ∧ i < 2 + body.length := by
    constructor
    · intro h
      cases h with
      | forBody hlow hi => exact ⟨hlow, hi⟩
    · rintro ⟨hlow, hi⟩
      exact .forBody hlow hi
  rw [hruns]
  match i with
  | 0 =>
    cases hc
    simp [Child.role_plain]
  | 1 =>
    cases hc
    simp
  | i + 2 =>
    rw [repeats_stmtParts (i := i) hc]
    omega

/-- A loop with a condition repeats the condition and its body. -/
theorem repeats_whileLoop {span : Span} {test : Expr} {body orelse : List Stmt}
    {below : Option Role}
    (hc : (StmtForm.whileLoop test body orelse).children[i]? = some c) :
    c.role.repeats below = true ↔
      RunsPerRound (.stmt (.node span (.whileLoop test body orelse))) (i :: rest) := by
  match i with
  | 0 =>
    cases hc
    exact iff_of_true rfl .whileTest
  | i + 1 =>
    rw [repeats_stmtParts (i := i) hc]
    constructor
    · intro hi
      exact .whileBody (by omega) (by omega)
    · intro h
      cases h with
      | whileBody _ hi => omega

/-- The iterable of a clause is its second part. -/
theorem firstRole?_clause_eq_iterable {cl : Clause} {address : List Nat} :
    firstRole? (.clause cl) address = some .iterable ↔ address.head? = some 1 := by
  obtain ⟨isAsync, target, iter, filters⟩ := cl
  unfold firstRole?
  cases address with
  | nil => simp
  | cons i address =>
    match i with
    | 0 => simp [Node.children, Child.role_plain]
    | 1 => simp [Node.children]
    | i + 2 =>
      have hplain : (exprParts filters)[i]?.map Child.role ≠ some .iterable := by
        intro h
        obtain ⟨c, hc, hrole⟩ := Option.map_eq_some_iff.1 h
        rw [Child.role_of_mem_exprParts (List.mem_of_getElem? hc)] at hrole
        cases hrole
      simpa [Node.children] using hplain

theorem children_of_comprehension? {e : Expr} {elements : List Expr} {clauses : List Clause}
    (he : e.comprehension? = some (elements, clauses)) :
    (Node.expr e).children =
      elements.map (fun e => ⟨.repeated, .expr e⟩) ++ clauseParts clauses := by
  unfold Expr.comprehension? at he
  split at he
  case h_5 => cases he
  all_goals
    cases he
    rfl

/-- A comprehension repeats all but the iterable of its first clause. -/
theorem repeats_comprehension {e : Expr} {elements : List Expr} {clauses : List Clause}
    (he : e.comprehension? = some (elements, clauses))
    (hc : (Node.expr e).children[i]? = some c) :
    c.role.repeats (firstRole? c.node rest) = true ↔ RunsPerRound (.expr e) (i :: rest) := by
  have hruns : RunsPerRound (.expr e) (i :: rest) ↔
      ¬ (i = elements.length ∧ rest.head? = some 1) := by
    constructor
    · intro h
      cases h with
      | comprehension he' h =>
        rw [he] at he'
        cases he'
        exact h
    · exact .comprehension he
  rw [hruns]
  rw [children_of_comprehension? he] at hc
  -- The elements come first, then the clause that has a role of its own, then the other clauses.
  rcases Nat.lt_trichotomy i elements.length with hi | rfl | hi
  · rw [List.getElem?_append_left (by simpa using hi), List.getElem?_map] at hc
    obtain ⟨element, -, rfl⟩ := Option.map_eq_some_iff.1 hc
    simp [Role.repeats, Nat.ne_of_lt hi]
  · rw [List.getElem?_append_right (by simp), List.length_map, Nat.sub_self] at hc
    match clauses with
    | cl :: clauses =>
      cases hc
      simp [Role.repeats, firstRole?_clause_eq_iterable]
  · rw [List.getElem?_append_right (by simp; omega), List.length_map] at hc
    obtain ⟨k, hk⟩ : ∃ k, i - elements.length = k + 1 := ⟨i - elements.length - 1, by omega⟩
    rw [hk] at hc
    match clauses with
    | cl :: clauses =>
      rw [clauseParts, List.getElem?_cons_succ, List.getElem?_map] at hc
      obtain ⟨cl', -, rfl⟩ := Option.map_eq_some_iff.1 hc
      simp [Role.repeats, Nat.ne_of_gt hi]

/-- The role of a part tells whether the construct around it runs it once per round. -/
theorem repeats_iff_runsPerRound {n : Node} (hc : n.children[i]? = some c) :
    c.role.repeats (firstRole? c.node rest) = true ↔ RunsPerRound n (i :: rest) := by
  by_cases hloop : n.isLoop = true
  · match n with
    | .stmt (.node _ (.forLoop ..)) => exact repeats_forLoop hc
    | .stmt (.node _ (.whileLoop ..)) => exact repeats_whileLoop hc
    | .expr (.node _ (.listComp ..)) | .expr (.node _ (.setComp ..))
    | .expr (.node _ (.dictComp ..)) | .expr (.node _ (.generator ..)) =>
      exact repeats_comprehension rfl hc
  · constructor
    · intro h
      exact absurd (isLoop_of_repeats (List.mem_of_getElem? hc) h) hloop
    · intro h
      exact absurd h.isLoop hloop

end Parts

end Node

/-! ## Cuts of a way down -/

namespace Occurrence

/-- The steps of a way down stand in the trail of what it leads to, the first of them last. -/
theorem exists_trail_of_at? {o p : Occurrence} {address : List Nat} (h : o.at? address = some p) :
    ∃ inner, p.trail = inner ++ o.trail ∧ inner.length = address.length ∧
      inner.getLast?.map Step.role = o.node.firstRole? address := by
  cases address with
  | nil =>
    cases h
    exact ⟨[], rfl, rfl, rfl⟩
  | cons i address =>
    obtain ⟨c, hc, h⟩ := exists_child_of_at?_cons h
    obtain ⟨inner, htrail, hlength, -⟩ := Node.leads_of_at? h
    exact ⟨inner ++ [⟨o.node, c.role⟩], by simp [htrail], by simp [hlength],
      by simp [Node.firstRole?, hc]⟩

/-- Where a way down is cut, the trail of what it leads to is cut at the same step. -/
theorem exists_cut_of_address {o p : Occurrence} {outer rest : List Nat} {i : Nat}
    (h : o.at? (outer ++ i :: rest) = some p) :
    ∃ q c inner, o.at? outer = some q ∧ q.node.children[i]? = some c ∧
      p.trail = inner ++ ⟨q.node, c.role⟩ :: q.trail ∧ inner.length = rest.length ∧
      inner.getLast?.map Step.role = c.node.firstRole? rest := by
  rw [at?_append] at h
  obtain ⟨q, hq, h⟩ := Option.bind_eq_some_iff.1 h
  obtain ⟨c, hc, h⟩ := exists_child_of_at?_cons h
  obtain ⟨inner, htrail, hlength, hrole⟩ := exists_trail_of_at? h
  exact ⟨q, c, inner, hq, hc, htrail, hlength, hrole⟩

/-- Where the trail of an occurrence is cut, so is any way down to it. -/
theorem exists_cut_of_trail {root o : Occurrence} (hroot : root.trail = []) {address : List Nat}
    (h : root.at? address = some o) {inner above : List Step} {s : Step}
    (htrail : o.trail = inner ++ s :: above) :
    ∃ outer i rest q c, address = outer ++ i :: rest ∧ root.at? outer = some q ∧
      q.node.children[i]? = some c ∧ s = ⟨q.node, c.role⟩ ∧
      inner.getLast?.map Step.role = c.node.firstRole? rest := by
  have hlength : address.length = inner.length + 1 + above.length := by
    obtain ⟨steps, hsteps, hlength, -⟩ := exists_trail_of_at? h
    rw [hroot, List.append_nil, htrail] at hsteps
    rw [← hlength, ← hsteps, List.length_append, List.length_cons]
    omega
  -- As many numbers come before the cut as steps stand above it.
  obtain ⟨outer, tail, rfl, houter⟩ :
      ∃ outer tail, address = outer ++ tail ∧ outer.length = above.length :=
    ⟨address.take above.length, address.drop above.length, (List.take_append_drop _ _).symm,
      by rw [List.length_take]; omega⟩
  rw [List.length_append] at hlength
  obtain ⟨i, rest, rfl⟩ : ∃ i rest, tail = i :: rest :=
    List.exists_cons_of_length_pos (by omega)
  obtain ⟨q, c, inner', hq, hc, htrail', hlength', hrole⟩ := exists_cut_of_address h
  rw [List.length_cons] at hlength
  obtain ⟨rfl, hcut⟩ := List.append_inj (htrail.symm.trans htrail') (by omega)
  exact ⟨outer, i, rest, q, c, rfl, hq, hc, (List.cons.inj hcut).1, hrole⟩

variable {root o : Occurrence} {address : List Nat}

/-- An occurrence is in a loop exactly if a node above it is one that runs it per round. -/
theorem inLoop_iff_of_at? (hroot : root.trail = []) (h : root.at? address = some o) :
    o.inLoop = true ↔ ∃ outer loop rest, address = outer ++ rest ∧
      root.at? outer = some loop ∧ loop.node.RunsPerRound rest := by
  rw [inLoop_iff]
  constructor
  · rintro ⟨inner, s, above, htrail, hrepeats⟩
    obtain ⟨outer, i, rest, q, c, haddress, hq, hc, rfl, hrole⟩ :=
      exists_cut_of_trail hroot h htrail
    rw [hrole] at hrepeats
    exact ⟨outer, q, i :: rest, haddress, hq, (Node.repeats_iff_runsPerRound hc).1 hrepeats⟩
  · rintro ⟨outer, loop, rest, rfl, hloop, hruns⟩
    obtain ⟨i, rest, rfl⟩ := List.exists_cons_of_ne_nil hruns.ne_nil
    obtain ⟨q, c, inner, hq, hc, htrail, -, hrole⟩ := exists_cut_of_address h
    rw [hloop] at hq
    cases hq
    refine ⟨inner, _, _, htrail, ?_⟩
    rw [hrole]
    exact (Node.repeats_iff_runsPerRound hc).2 hruns

theorem inRaise_iff_of_at? (hroot : root.trail = []) (h : root.at? address = some o) :
    o.inRaise = true ↔ ∃ outer statement rest, address = outer ++ rest ∧ rest ≠ [] ∧
      root.at? outer = some statement ∧ statement.node.isRaise = true := by
  rw [inRaise, List.any_eq_true]
  constructor
  · rintro ⟨s, hs, hraise⟩
    obtain ⟨inner, above, htrail⟩ := List.append_of_mem hs
    obtain ⟨outer, i, rest, q, c, haddress, hq, -, rfl, -⟩ := exists_cut_of_trail hroot h htrail
    exact ⟨outer, q, i :: rest, haddress, List.cons_ne_nil _ _, hq, hraise⟩
  · rintro ⟨outer, statement, rest, rfl, hrest, hstatement, hraise⟩
    obtain ⟨i, rest, rfl⟩ := List.exists_cons_of_ne_nil hrest
    obtain ⟨q, c, inner, hq, -, htrail, -⟩ := exists_cut_of_address h
    rw [hstatement] at hq
    cases hq
    exact ⟨⟨statement.node, c.role⟩, by simp [htrail], hraise⟩

end Occurrence

/-! ## Methods -/

namespace MethodDecl

/-- The definition of a method, from where the ways down to the constructs of its body start. -/
def definition (m : MethodDecl) : Occurrence :=
  ⟨.stmt m.stmt, []⟩

/-- A method of a class is the definition that it was read from. -/
theorem exists_stmt_of_mem_methods {c : ClassDecl} {m : MethodDecl} (hm : m ∈ c.methods) :
    ∃ span, m.stmt =
      .node span (.function m.isAsync m.name m.params m.body m.decorators m.returns) := by
  obtain ⟨s, -, hs⟩ := List.mem_filterMap.1 hm
  split at hs
  · cases hs
    exact ⟨_, rfl⟩
  · cases hs

theorem mem_occurrences_iff_at? {m : MethodDecl} {o : Occurrence} :
    o ∈ m.occurrences ↔
      ∃ s ∈ m.body, ∃ address, Occurrence.at? ⟨.stmt s, [m.outStep]⟩ address = some o := by
  rw [mem_occurrences_iff]
  refine exists_congr fun s => and_congr_right fun _ => ?_
  constructor
  · rintro ⟨inner, htrail, hleads⟩
    rw [show o = ⟨o.node, inner ++ [m.outStep]⟩ by rw [← htrail]]
    exact hleads.exists_at? _
  · rintro ⟨address, h⟩
    obtain ⟨inner, htrail, -, hleads⟩ := Node.leads_of_at? h
    exact ⟨inner, htrail, hleads⟩

/-- What the traversal of a method meets stands below its definition. -/
theorem exists_address {c : ClassDecl} {m : MethodDecl} (hm : m ∈ c.methods) {o : Occurrence}
    (ho : o ∈ m.occurrences) : ∃ address, m.definition.at? address = some o := by
  obtain ⟨s, hs, address, h⟩ := mem_occurrences_iff_at?.1 ho
  obtain ⟨span, hstmt⟩ := exists_stmt_of_mem_methods hm
  have hpart : (⟨.plain, .stmt s⟩ : Child) ∈ (Node.stmt m.stmt).children := by
    have hbody : (⟨.plain, .stmt s⟩ : Child) ∈ stmtParts .plain m.body :=
      List.mem_map.2 ⟨s, hs, rfl⟩
    simp [hstmt, Node.children, StmtForm.children, hbody]
  obtain ⟨i, hi⟩ := List.mem_iff_getElem?.1 hpart
  exact ⟨i :: address, (Occurrence.at?_cons_of_child hi address).trans h⟩

/-- There is a way down from the definition of a method to each construct that its traversal meets.
On any such way, the construct is in a loop if the way comes through a loop and goes on to what the
loop runs once per round, and it is in a `raise` statement if the way comes through one. -/
theorem inLoop_and_inRaise_iff {c : ClassDecl} {m : MethodDecl} (hm : m ∈ c.methods)
    {o : Occurrence} (ho : o ∈ m.occurrences) :
    (∃ address, m.definition.at? address = some o) ∧
    ∀ address, m.definition.at? address = some o →
      (o.inLoop = true ↔ ∃ outer loop rest, address = outer ++ rest ∧
        m.definition.at? outer = some loop ∧ loop.node.RunsPerRound rest) ∧
      (o.inRaise = true ↔ ∃ outer statement rest, address = outer ++ rest ∧ rest ≠ [] ∧
        m.definition.at? outer = some statement ∧ statement.node.isRaise = true) :=
  ⟨exists_address hm ho, fun _ h =>
    ⟨Occurrence.inLoop_iff_of_at? rfl h, Occurrence.inRaise_iff_of_at? rfl h⟩⟩

/-- Raises, for each batch, what is in it. -/
def raiseLoop : Stmt :=
  .node default (.forLoop false (.node default (.name "batch")) (.node default (.name "batches"))
    [.node default (.raises (some (.node default (.listComp (.node default (.name "order"))
      [.mk false (.node default (.name "order")) (.node default (.name "batch")) []]))) none)] [])

/-- A class with a method whose body is `raiseLoop`. -/
def batches : ClassDecl where
  unit := ⟨⟨"/", []⟩, "class Batches: pass", []⟩
  number := 0
  stmt := .node default .pass
  name := "Batches"
  bases := []
  keywords := []
  body := [.node default (.function false "refuse" .empty [raiseLoop] [] none)]
  decorators := []

/-- The iterable of a comprehension in a `raise` statement in the body of a loop: the comprehension
does not repeat it, and the loop does. -/
theorem inLoop_and_inRaise_iff_batches :
    ∃ m ∈ batches.methods, ∃ o ∈ m.occurrences,
      m.definition.at? [1, 2, 0, 1, 1] = some o ∧ o.node = .expr (.node default (.name "batch")) ∧
      o.inLoop = true ∧ o.inRaise = true := by
  have hm : (batches.methods.head (List.cons_ne_nil _ _)) ∈ batches.methods := List.head_mem _
  have ho : _ ∈ (batches.methods.head (List.cons_ne_nil _ _)).occurrences :=
    mem_occurrences_iff_at?.2 ⟨raiseLoop, .head _, [2, 0, 1, 1], rfl⟩
  obtain ⟨hloop, hraise⟩ := (inLoop_and_inRaise_iff hm ho).2 [1, 2, 0, 1, 1] rfl
  refine ⟨_, hm, _, ho, rfl, rfl, hloop.2 ?_, hraise.2 ?_⟩
  · exact ⟨[1], _, [2, 0, 1, 1], rfl, rfl, .forBody (by decide) (by decide)⟩
  · exact ⟨[1, 2], _, [0, 1, 1], rfl, by decide, rfl, rfl⟩

end MethodDecl

end RouteLens
