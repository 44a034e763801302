import Mathlib.Algebra.BigOperators.Group.Finset.Basic
import Mathlib.Algebra.BigOperators.Ring.List
import Mathlib.Algebra.Order.BigOperators.Group.List
import Mathlib.Data.List.Perm.Subperm
import Mathlib.Data.Set.Card
import RouteLens.Analysis.Exceptions
import RouteLens.Proofs.Ordered
import RouteLens.Proofs.Source.Classes
import RouteLens.Proofs.Tree.LoopPaths
import RouteLens.Proofs.Tree.Preorder

/-!
# Constructed exceptions

The weights of a class are a table that a traversal fills, one construct after the other.  Here they
are said without a traversal: a call of an exception weighs two at an address below a `raise`
statement and one at any other address, and a `raise` statement that names an exception weighs two.
A weight is then a number of addresses, and the keys stand in the order of the first of them.

A method is traversed on its own, from the statements of its body, and knows of `raise` statements
around a construct only inside of it.  It weighs each construct as the class does, so that the
weights of the methods add up to no more than those of the class.
-/

namespace RouteLens

/-! ## Tables of numbers -/

namespace Ordered

/-- The number that a table has for a key, zero if it has none. -/
def weight (t : Ordered Nat) (key : String) : Nat :=
  (t.get? key).getD 0

/-- Adds up numbers by their keys, which keep the order of their first appearance. -/
def tally (es : List (String × Nat)) : Ordered Nat :=
  es.foldl (fun t e => put e.1 ((t.get? e.1).getD 0 + e.2) t) []

theorem tally_concat (es : List (String × Nat)) (e : String × Nat) :
    tally (es ++ [e]) = put e.1 ((tally es).weight e.1 + e.2) (tally es) := by
  simp [tally, weight]

theorem weight_put (t : Ordered Nat) (key k : String) (w : Nat) :
    weight (put key w t) k = if k = key then w else t.weight k := by
  unfold weight
  rw [get?_put]
  split <;> rfl

/-- What is added to the number of a key, if there is something to add. -/
def addition (k : String) (e : Option (String × Nat)) : Nat :=
  (e.map fun e => if e.1 = k then e.2 else 0).getD 0

theorem weight_tally {α : Type} (l : List α) (f : α → Option (String × Nat)) (k : String) :
    (tally (l.filterMap f)).weight k = (l.map fun a => addition k (f a)).sum := by
  induction l using List.reverseRecOn with
  | nil => rfl
  | append_singleton l x ih =>
    rw [List.filterMap_append, List.map_append, List.sum_append, ← ih]
    cases hfx : f x with
    | none => simp [hfx, addition]
    | some e =>
      rw [List.filterMap_cons_some hfx, List.filterMap_nil, tally_concat, weight_put]
      by_cases hk : k = e.1
      · simp [hk, hfx, addition]
      · simp [hk, hfx, addition, Ne.symm hk]

theorem mem_keys_tally {es : List (String × Nat)} {k : String} :
    k ∈ (tally es).keys ↔ k ∈ es.map Prod.fst := by
  induction es using List.reverseRecOn with
  | nil => simp [tally, keys]
  | append_singleton es e ih =>
    rw [tally_concat, mem_keys_put, ih, List.map_append, List.mem_append]
    simp [or_comm]

theorem nodup_keys_tally (es : List (String × Nat)) : (tally es).keys.Nodup := by
  induction es using List.reverseRecOn with
  | nil => exact List.nodup_nil
  | append_singleton es e ih =>
    rw [tally_concat]
    exact nodup_keys_put ih

/-- Numbers are read off the members of a list, whose order is `R`.  If one key comes before another
one, then some member gives a number to the first key and is ordered before all that give one to
the second. -/
theorem keys_tally_pairwise {α : Type} {R : α → α → Prop} {l : List α} (h : l.Pairwise R)
    (f : α → Option (String × Nat)) :
    (tally (l.filterMap f)).keys.Pairwise fun k m =>
      ∃ a ∈ l, (∃ w, f a = some (k, w)) ∧ ∀ b ∈ l, ∀ w, f b = some (m, w) → R a b := by
  induction l using List.reverseRecOn with
  | nil => exact List.Pairwise.nil
  | append_singleton l x ih =>
    obtain ⟨hl, -, hx⟩ := List.pairwise_append.1 h
    -- Whatever was ordered before some members of `l` is ordered before `x` too.
    have hold := (ih hl).imp fun {k m} hkm => show ∃ a ∈ l ++ [x], (∃ w, f a = some (k, w)) ∧
        ∀ b ∈ l ++ [x], ∀ w, f b = some (m, w) → R a b by
      obtain ⟨a, ha, hk, hm⟩ := hkm
      refine ⟨a, List.mem_append_left _ ha, hk, fun b hb w hw => ?_⟩
      rcases List.mem_append.1 hb with hb | hb
      · exact hm b hb w hw
      · exact hx a ha b hb
    rw [List.filterMap_append]
    cases hfx : f x with
    | none => simpa [hfx] using hold
    | some e =>
      rw [List.filterMap_cons_some hfx, List.filterMap_nil, tally_concat, keys_put]
      by_cases hmem : e.1 ∈ (tally (l.filterMap f)).keys
      · rwa [if_pos hmem]
      · rw [if_neg hmem, List.pairwise_append]
        refine ⟨hold, List.pairwise_singleton _ _, fun k hk m hm => ?_⟩
        obtain rfl := List.mem_singleton.1 hm
        obtain ⟨d, hd, rfl⟩ := List.mem_map.1 (mem_keys_tally.1 hk)
        obtain ⟨a, ha, had⟩ := List.mem_filterMap.1 hd
        refine ⟨a, List.mem_append_left _ ha, ⟨d.2, had⟩, fun b hb w hw => ?_⟩
        rcases List.mem_append.1 hb with hb | hb
        · have hentry : (e.1, w) ∈ l.filterMap f := List.mem_filterMap.2 ⟨b, hb, hw⟩
          exact absurd (mem_keys_tally.2 (List.mem_map.2 ⟨_, hentry, rfl⟩)) hmem
        · exact hx a ha b hb

end Ordered

/-! ## What refers to an exception -/

/-- An expression is a name, or an attribute of that name. -/
inductive Expr.EndsIn : Expr → String → Prop
  | name (span : Span) (id : String) : EndsIn (.node span (.name id)) id
  | attribute (span : Span) (value : Expr) (attr : String) :
      EndsIn (.node span (.attribute value attr)) attr

namespace ExceptionRules

variable (r : ExceptionRules) (aliases : Ordered ImportedName)

/-- An expression refers to an exception: the file has imported the exception under the name that
the expression ends in, or it has imported none under that name, which is the exception's own. -/
def RefersTo (e : Expr) (exc : String) : Prop :=
  r.isExceptionName exc = true ∧ ∃ n, e.EndsIn n ∧
    ((∃ i, aliases.get? n = some i ∧ i.name = exc) ∨ (aliases.get? n = none ∧ n = exc))

/-- A construct is a call of an exception. -/
def Calls (n : Node) (exc : String) : Prop :=
  ∃ span func args keywords, n = .expr (.node span (.call func args keywords)) ∧
    r.RefersTo aliases func exc

/-- A construct is a `raise` statement that names an exception. -/
def Raises (n : Node) (exc : String) : Prop :=
  ∃ span e cause, n = .stmt (.node span (.raises (some e) cause)) ∧ r.RefersTo aliases e exc

/-- What stands at an address below a construct constructs an exception. -/
def ConstructsAt (root : Occurrence) (address : List Nat) (exc : String) : Prop :=
  address ≠ [] ∧ ∃ o, root.at? address = some o ∧
    (r.Calls aliases o.node exc ∨ r.Raises aliases o.node exc)

end ExceptionRules

/-- An address leads through a `raise` statement to what stands in it. -/
def Occurrence.RaisedAt (root : Occurrence) (address : List Nat) : Prop :=
  ∃ outer statement rest, address = outer ++ rest ∧ rest ≠ [] ∧
    root.at? outer = some statement ∧ statement.node.isRaise = true

namespace ExceptionRules

variable (r : ExceptionRules) (aliases : Ordered ImportedName)

/-- The addresses of the calls of an exception that stand in a `raise` statement. -/
def raisedCalls (root : Occurrence) (exc : String) : Set (List Nat) :=
  {a | a ≠ [] ∧ (∃ o, root.at? a = some o ∧ r.Calls aliases o.node exc) ∧ root.RaisedAt a}

/-- The addresses of the calls of an exception that stand in no `raise` statement. -/
def otherCalls (root : Occurrence) (exc : String) : Set (List Nat) :=
  {a | a ≠ [] ∧ (∃ o, root.at? a = some o ∧ r.Calls aliases o.node exc) ∧ ¬ root.RaisedAt a}

/-- The addresses of the `raise` statements that name an exception. -/
def namingRaises (root : Occurrence) (exc : String) : Set (List Nat) :=
  {a | a ≠ [] ∧ ∃ o, root.at? a = some o ∧ r.Raises aliases o.node exc}

/-! ## What a traversal adds to the table -/

/-- What a construct adds to the weights: an exception and a number. -/
def entryOf? (o : Occurrence) : Option (String × Nat) :=
  (construction? o).bind fun e =>
    if r.isExceptionName (declaredName aliases e.1) then some (declaredName aliases e.1, e.2)
    else none

theorem weigh_eq_tally (os : List Occurrence) :
    r.weigh aliases os = Ordered.tally (os.filterMap (r.entryOf? aliases)) := by
  unfold weigh Ordered.tally
  rw [List.foldl_filterMap]
  congr 1
  funext t o
  unfold entryOf?
  cases construction? o with
  | none => rfl
  | some e =>
    by_cases hname : r.isExceptionName (declaredName aliases e.1) = true <;> simp [hname]

/-- What a run of constructs constructs, under the names of declarations. -/
def constructions (aliases : Ordered ImportedName) (os : List Occurrence) : List (String × Nat) :=
  (os.filterMap construction?).map fun e => (declaredName aliases e.1, e.2)

theorem weigh_eq_constructions (os : List Occurrence) :
    r.weigh aliases os =
      Ordered.tally ((constructions aliases os).filter fun e => r.isExceptionName e.1) := by
  rw [weigh_eq_tally, constructions, List.map_filterMap, List.filter_filterMap]
  congr 2
  funext o
  unfold entryOf?
  cases construction? o with
  | none => rfl
  | some e => rfl

theorem testConstructions_eq (u : SourceUnit) (os : List Occurrence) :
    r.testConstructions u os =
      (constructions (r.importedNames u) os).forM (fun e => do let _ ← r.testName e.1) := by
  rw [testConstructions, constructions, List.forM_eq_forM, List.forM_map]

variable {r aliases} {o : Occurrence} {exc : String} {w : Nat}

theorem plainName?_eq_some_iff {e : Expr} {n : String} : plainName? e = some n ↔ e.EndsIn n := by
  constructor
  · intro h
    unfold plainName? at h
    split at h
    · cases h
      exact .name _ _
    · cases h
      exact .attribute _ _ _
    · cases h
  · rintro (_ | _) <;> rfl

theorem declaredName_eq_iff {n : String} : declaredName aliases n = exc ↔
    (∃ i, aliases.get? n = some i ∧ i.name = exc) ∨ (aliases.get? n = none ∧ n = exc) := by
  unfold declaredName
  cases aliases.get? n <;> simp

theorem refersTo_iff {e : Expr} : r.RefersTo aliases e exc ↔
    ∃ n, plainName? e = some n ∧ declaredName aliases n = exc ∧ r.isExceptionName exc = true := by
  simp only [RefersTo, plainName?_eq_some_iff, declaredName_eq_iff]
  grind

@[simp] theorem calls_call {span : Span} {func : Expr} {args : List Expr} {ks : List Keyword} :
    r.Calls aliases (.expr (.node span (.call func args ks))) exc ↔
      r.RefersTo aliases func exc := by
  simp [Calls]

@[simp] theorem not_calls_stmt {s : Stmt} : ¬ r.Calls aliases (.stmt s) exc := by
  simp [Calls]

@[simp] theorem raises_raises {span : Span} {e : Expr} {cause : Option Expr} :
    r.Raises aliases (.stmt (.node span (.raises (some e) cause))) exc ↔
      r.RefersTo aliases e exc := by
  simp [Raises]

@[simp] theorem not_raises_expr {e : Expr} : ¬ r.Raises aliases (.expr e) exc := by
  simp [Raises]

theorem pos_of_construction? {n : String} (h : construction? o = some (n, w)) : 0 < w := by
  unfold construction? at h
  split at h
  · obtain ⟨_, -, heq⟩ := Option.map_eq_some_iff.1 h
    cases heq
    split <;> omega
  · obtain ⟨_, -, heq⟩ := Option.map_eq_some_iff.1 h
    cases heq
    omega
  · cases h

theorem entryOf?_eq_some_iff_construction? : r.entryOf? aliases o = some (exc, w) ↔
    ∃ n, construction? o = some (n, w) ∧ declaredName aliases n = exc ∧
      r.isExceptionName exc = true := by
  simp only [entryOf?, Option.bind_eq_some_iff, Option.ite_none_right_eq_some]
  grind

/-- What an occurrence adds: a call counts double in a `raise` statement, and so does a `raise`
itself. -/
theorem entryOf?_eq_some_iff : r.entryOf? aliases o = some (exc, w) ↔
    (r.Calls aliases o.node exc ∧ w = if o.inRaise then 2 else 1) ∨
      (r.Raises aliases o.node exc ∧ w = 2) := by
  rw [entryOf?_eq_some_iff_construction?]
  unfold construction?
  split
  · rename_i span func args ks hnode
    rw [hnode, calls_call, refersTo_iff]
    simp only [Option.map_eq_some_iff, Prod.mk.injEq, not_raises_expr, false_and, or_false]
    grind
  · rename_i span e cause hnode
    rw [hnode, raises_raises, refersTo_iff]
    simp only [Option.map_eq_some_iff, Prod.mk.injEq, not_calls_stmt, false_and, false_or]
    grind
  · rename_i hcall hraise
    have hnot : ¬ r.Calls aliases o.node exc := by
      rintro ⟨span, func, args, ks, hnode, -⟩
      exact hcall span func args ks hnode
    have hnot' : ¬ r.Raises aliases o.node exc := by
      rintro ⟨span, e, cause, hnode, -⟩
      exact hraise span e cause hnode
    simp [hnot, hnot']

theorem Calls.not_raises {n : Node} (h : r.Calls aliases n exc) : ¬ r.Raises aliases n exc := by
  obtain ⟨_, _, _, _, rfl, -⟩ := h
  exact not_raises_expr

theorem exists_entryOf?_iff : (∃ w, r.entryOf? aliases o = some (exc, w)) ↔
    r.Calls aliases o.node exc ∨ r.Raises aliases o.node exc := by
  simp [entryOf?_eq_some_iff, exists_or]

/-! ## Weights as numbers of addresses -/

end ExceptionRules

namespace Node

variable {start? : Node → Option Position}

theorem filterMap_occurrencesBy {β : Type} (start? : Node → Option Position) (root : Occurrence)
    (f : Occurrence → Option β) :
    (occurrencesBy start? root.trail root.node).filterMap f =
      (addressesBy start? root.node).filterMap fun a => (root.at? a).bind f := by
  have hat : (addressesBy start? root.node).map root.at? =
      (occurrencesBy start? root.trail root.node).map some := map_at?_addressesBy root
  have h := congrArg (List.filterMap fun o => o.bind f) hat
  rw [List.filterMap_map, List.filterMap_map] at h
  exact h.symm

end Node

open scoped Classical in
/-- The size of a set of members of a list without repetitions. -/
theorem encard_eq_sum_of_nodup {α : Type} {l : List α} (hl : l.Nodup) {s : Set α}
    (hs : ∀ a ∈ s, a ∈ l) :
    s.encard = ((l.map fun a => if a ∈ s then 1 else 0).sum : Nat) := by
  have hset : s = ↑(l.toFinset.filter (· ∈ s)) := by
    ext a
    simpa using hs a
  rw [← List.sum_toFinset _ hl, ← Finset.card_filter]
  conv_lhs => rw [hset]
  exact Set.encard_coe_eq_coe_finsetCard _

namespace ExceptionRules

variable (r : ExceptionRules) (aliases : Ordered ImportedName) (exc : String)
  {start? : Node → Option Position}

open scoped Classical in
/-- What stands at an address is a call in a `raise` statement, another call, a `raise` statement
that names the exception, or nothing that weighs. -/
theorem addition_eq {root : Occurrence} (hroot : root.trail = []) {a : List Nat} (ha : a ≠ []) :
    Ordered.addition exc ((root.at? a).bind (r.entryOf? aliases)) =
      2 * ((if a ∈ r.raisedCalls aliases root exc then 1 else 0) +
        (if a ∈ r.namingRaises aliases root exc then 1 else 0)) +
      (if a ∈ r.otherCalls aliases root exc then 1 else 0) := by
  cases hat : root.at? a with
  | none => simp [Ordered.addition, raisedCalls, namingRaises, otherCalls, hat]
  | some o =>
    have hraised : o.inRaise = true ↔ root.RaisedAt a := Occurrence.inRaise_iff_of_at? hroot hat
    by_cases hcalls : r.Calls aliases o.node exc
    · have hentry := entryOf?_eq_some_iff.2 (.inl ⟨hcalls, rfl⟩)
      by_cases hin : root.RaisedAt a
      · simp [Ordered.addition, raisedCalls, namingRaises, otherCalls, hat, hentry, ha, hcalls,
          hcalls.not_raises, hin, hraised.2 hin]
      · simp [Ordered.addition, raisedCalls, namingRaises, otherCalls, hat, hentry, ha, hcalls,
          hcalls.not_raises, hin, mt hraised.1 hin]
    · by_cases hraises : r.Raises aliases o.node exc
      · have hentry := entryOf?_eq_some_iff.2 (.inr ⟨hraises, rfl⟩)
        simp [Ordered.addition, raisedCalls, namingRaises, otherCalls, hat, hentry, ha, hcalls,
          hraises]
      · have hnone : Ordered.addition exc (r.entryOf? aliases o) = 0 := by
          cases hentry : r.entryOf? aliases o with
          | none => rfl
          | some e =>
            have hne : e.1 ≠ exc := by
              rintro rfl
              rcases exists_entryOf?_iff.1 ⟨e.2, hentry⟩ with h | h
              · exact hcalls h
              · exact hraises h
            simp [Ordered.addition, hne]
        simp [raisedCalls, namingRaises, otherCalls, hat, hcalls, hraises, hnone]

/-- The weight of an exception below a construct is a number of addresses. -/
theorem weight_occurrencesBy (root : Occurrence) (hroot : root.trail = []) :
    (((r.weigh aliases (Node.occurrencesBy start? [] root.node)).weight exc : Nat) : ℕ∞) =
      2 * ((r.raisedCalls aliases root exc).encard + (r.namingRaises aliases root exc).encard) +
        (r.otherCalls aliases root exc).encard := by
  classical
  have hmem : ∀ a, a ≠ [] → (root.at? a).isSome → a ∈ Node.addressesBy start? root.node :=
    fun a ha hsome => Node.mem_addressesBy.2 ⟨ha, hsome⟩
  have hnodup : (Node.addressesBy start? root.node).Nodup := Node.nodup_addressesBy root.node
  have hcard {s : Set (List Nat)} (hs : ∀ a ∈ s, a ≠ [] ∧ (root.at? a).isSome) :=
    encard_eq_sum_of_nodup hnodup fun a ha => hmem a (hs a ha).1 (hs a ha).2
  rw [hcard (s := r.raisedCalls aliases root exc) (by
      rintro a ⟨ha, ⟨o, hat, -⟩, -⟩
      simp [ha, hat]),
    hcard (s := r.namingRaises aliases root exc) (by
      rintro a ⟨ha, o, hat, -⟩
      simp [ha, hat]),
    hcard (s := r.otherCalls aliases root exc) (by
      rintro a ⟨ha, ⟨o, hat, -⟩, -⟩
      simp [ha, hat])]
  have hentries := Node.filterMap_occurrencesBy start? root (r.entryOf? aliases)
  rw [hroot] at hentries
  rw [weigh_eq_tally, hentries, Ordered.weight_tally]
  norm_cast
  rw [← List.sum_map_add, ← List.sum_map_mul_left, ← List.sum_map_add]
  congr 1
  refine List.map_congr_left fun a ha => ?_
  exact r.addition_eq aliases exc hroot (Node.mem_addressesBy.1 ha).1

variable {r aliases exc} {root : Occurrence} {a : List Nat}

theorem constructsAt_iff (start? : Node → Option Position) :
    r.ConstructsAt aliases root a exc ↔ a ∈ Node.addressesBy start? root.node ∧
      ∃ w, (root.at? a).bind (r.entryOf? aliases) = some (exc, w) := by
  rw [Node.mem_addressesBy]
  unfold ConstructsAt
  cases hat : root.at? a with
  | none => simp
  | some o => simp [exists_entryOf?_iff]

variable (r aliases)

theorem mem_keys_weigh_iff (root : Occurrence) (hroot : root.trail = []) :
    exc ∈ (r.weigh aliases (Node.occurrencesBy start? [] root.node)).keys ↔
      ∃ a, r.ConstructsAt aliases root a exc := by
  rw [weigh_eq_tally, ← hroot, Node.filterMap_occurrencesBy, Ordered.mem_keys_tally]
  constructor
  · intro h
    obtain ⟨e, he, rfl⟩ := List.mem_map.1 h
    obtain ⟨a, ha, hentry⟩ := List.mem_filterMap.1 he
    exact ⟨a, (constructsAt_iff start?).2 ⟨ha, e.2, hentry⟩⟩
  · rintro ⟨a, h⟩
    obtain ⟨ha, w, hentry⟩ := (constructsAt_iff start?).1 h
    exact List.mem_map.2 ⟨_, List.mem_filterMap.2 ⟨a, ha, hentry⟩, rfl⟩

/-- The exceptions of a table stand in the order in which a reader meets the first construction of
each. -/
theorem keys_weigh_pairwise (root : Occurrence) (hroot : root.trail = []) :
    (r.weigh aliases (Node.occurrencesBy start? [] root.node)).keys.Pairwise fun e f =>
      ∃ a, r.ConstructsAt aliases root a e ∧
        ∀ b, r.ConstructsAt aliases root b f → Node.MetFirst start? root.node a b := by
  rw [weigh_eq_tally, ← hroot, Node.filterMap_occurrencesBy]
  refine (Ordered.keys_tally_pairwise (Node.addressesBy_pairwise root.node) _).imp ?_
  rintro e f ⟨a, ha, he, hf⟩
  refine ⟨a, (constructsAt_iff start?).2 ⟨ha, he⟩, fun b hb => ?_⟩
  obtain ⟨hb, w, hw⟩ := (constructsAt_iff start?).1 hb
  exact hf b hb w hw

end ExceptionRules

/-! ## Methods of a class -/

/-- What is met in a construct, seen from further out. -/
def Occurrence.within (outer : List Step) (o : Occurrence) : Occurrence :=
  ⟨o.node, o.trail ++ outer⟩

namespace Node

theorem occurrencesBy_within (start? : Node → Option Position) (trail outer : List Step)
    (n : Node) :
    occurrencesBy start? (trail ++ outer) n =
      (occurrencesBy start? trail n).map (Occurrence.within outer) := by
  rw [occurrencesBy_eq, occurrencesBy_eq, List.map_flatMap]
  refine List.flatMap_congr fun c hc => ?_
  have hpart := (mem_orderedChildren start?).1 hc
  rw [List.map_cons, ← occurrencesBy_within start? _ outer c.node]
  rfl
termination_by sizeOf n
decreasing_by exact sizeOf_lt_of_mem_children hpart

/-- The statements of a body and all that is in them. -/
def bodyOccurrences (trail : List Step) (body : List Stmt) : List Occurrence :=
  body.flatMap fun s => ⟨.stmt s, trail⟩ :: (Node.stmt s).occurrences trail

theorem bodyOccurrences_within (trail outer : List Step) (body : List Stmt) :
    bodyOccurrences (trail ++ outer) body =
      (bodyOccurrences trail body).map (Occurrence.within outer) := by
  unfold bodyOccurrences
  rw [List.map_flatMap]
  refine List.flatMap_congr fun s _ => ?_
  rw [List.map_cons]
  exact congrArg (_ :: ·) (occurrencesBy_within start? trail outer (.stmt s))

/-- What a body holds is met in the construct around it. -/
theorem bodyOccurrences_subperm {n : Node} {body : List Stmt}
    (h : (stmtParts .plain body).Sublist n.children) (trail : List Step) :
    (bodyOccurrences (⟨n, .plain⟩ :: trail) body).Subperm (n.occurrences trail) := by
  have hbody : bodyOccurrences (⟨n, .plain⟩ :: trail) body = (stmtParts .plain body).flatMap
      fun c => ⟨c.node, ⟨n, c.role⟩ :: trail⟩ :: c.node.occurrences (⟨n, c.role⟩ :: trail) := by
    rw [bodyOccurrences, stmtParts, List.flatMap_map]
  have hwhole := (orderedChildren_perm start? n).symm.flatMap_right
    fun c => ⟨c.node, ⟨n, c.role⟩ :: trail⟩ :: c.node.occurrences (⟨n, c.role⟩ :: trail)
  rw [hbody, occurrences, occurrencesBy_eq]
  exact (h.flatMap _).subperm.trans hwhole.subperm

end Node

namespace ClassDecl

/-- The definition of a class, from where the ways down to its constructs start. -/
def definition (c : ClassDecl) : Occurrence :=
  ⟨.stmt c.stmt, []⟩

/-- The step from a statement of the body out to the class. -/
def outStep (c : ClassDecl) : Step :=
  ⟨.stmt c.stmt, .plain⟩

/-- A class of a file is the definition that it was read from. -/
theorem exists_stmt_of_mem_classes {u : SourceUnit} {c : ClassDecl} (hc : c ∈ u.classes) :
    c.unit = u ∧ c.stmt ∈ u.body ∧ ∃ span, c.stmt =
      .node span (.classDef c.name c.bases c.keywords c.body c.decorators) := by
  obtain ⟨hs, hclass⟩ := SourceUnit.mem_classes_iff.1 hc
  obtain ⟨hunit, -, -, hstmt⟩ := SourceUnit.classAt?_eq_some hclass
  exact ⟨hunit, List.mem_of_getElem? hs, hstmt⟩

/-- What the methods of a class hold is met in the body of the class. -/
theorem methods_subperm (c : ClassDecl) (trail : List Step) :
    (c.methods.flatMap fun m => Node.bodyOccurrences (m.outStep :: trail) m.body).Subperm
      (Node.bodyOccurrences trail c.body) := by
  unfold methods
  induction c.body with
  | nil => exact .refl _
  | cons s body ih =>
    have hcons : Node.bodyOccurrences trail (s :: body) =
        (⟨.stmt s, trail⟩ :: (Node.stmt s).occurrences trail) ++
          Node.bodyOccurrences trail body := rfl
    rw [hcons, List.filterMap_cons]
    split
    · exact ih.trans (List.sublist_append_right _ _).subperm
    · rename_i m hm
      split at hm
      · cases hm
        rw [List.flatMap_cons]
        refine List.Subperm.append (.cons_right _ ?_) ih
        refine Node.bodyOccurrences_subperm ?_ trail
        simp [Node.children, StmtForm.children]
      · cases hm

/-- What the methods of a class hold, seen from the class, is met in the class. -/
theorem methods_occurrences_subperm {c : ClassDecl} {u : SourceUnit} (hc : c ∈ u.classes) :
    (c.methods.flatMap fun m => m.occurrences.map (Occurrence.within [c.outStep])).Subperm
      c.occurrences := by
  obtain ⟨-, -, span, hstmt⟩ := exists_stmt_of_mem_classes hc
  have hbody : (stmtParts .plain c.body).Sublist (Node.stmt c.stmt).children := by
    rw [hstmt]
    exact (List.sublist_append_right _ _).trans (List.sublist_append_left _ _)
  have hmethod (m : MethodDecl) : m.occurrences.map (Occurrence.within [c.outStep]) =
      Node.bodyOccurrences [m.outStep, c.outStep] m.body :=
    (Node.bodyOccurrences_within [m.outStep] [c.outStep] m.body).symm
  simp only [hmethod]
  exact (c.methods_subperm [c.outStep]).trans (Node.bodyOccurrences_subperm hbody [])

end ClassDecl

namespace ExceptionRules

variable (r : ExceptionRules) (aliases : Ordered ImportedName) (exc : String)

theorem weight_weigh (os : List Occurrence) : (r.weigh aliases os).weight exc =
    (os.map fun o => Ordered.addition exc (r.entryOf? aliases o)).sum := by
  rw [weigh_eq_tally, Ordered.weight_tally]

theorem weight_weigh_flatMap {α : Type} (l : List α) (f : α → List Occurrence) :
    (r.weigh aliases (l.flatMap f)).weight exc =
      (l.map fun a => (r.weigh aliases (f a)).weight exc).sum := by
  simp only [weight_weigh]
  induction l with
  | nil => rfl
  | cons a l ih => rw [List.flatMap_cons, List.map_append, List.sum_append, ih, List.map_cons,
      List.sum_cons]

theorem weight_weigh_le {os os' : List Occurrence} (h : os.Subperm os') :
    (r.weigh aliases os).weight exc ≤ (r.weigh aliases os').weight exc := by
  obtain ⟨l, hperm, hsub⟩ := h
  rw [weight_weigh, weight_weigh, ← (hperm.map _).sum_eq]
  exact (hsub.map _).sum_le_sum fun _ _ => Nat.zero_le _

/-- A construct weighs the same seen from further out, unless from out of a `raise` statement. -/
theorem weight_weigh_within {outer : List Step} (h : ∀ s ∈ outer, s.parent.isRaise = false)
    (os : List Occurrence) :
    (r.weigh aliases (os.map (Occurrence.within outer))).weight exc =
      (r.weigh aliases os).weight exc := by
  have hraise (o : Occurrence) : (o.within outer).inRaise = o.inRaise := by
    have hnone : (outer.any fun s => s.parent.isRaise) = false := by simpa using h
    rw [Occurrence.inRaise, Occurrence.inRaise, Occurrence.within, List.any_append, hnone,
      Bool.or_false]
  have hentry (o : Occurrence) : r.entryOf? aliases (o.within outer) = r.entryOf? aliases o := by
    unfold entryOf? construction?
    rw [hraise]
    rfl
  simp only [weight_weigh, List.map_map, Function.comp_def, hentry]

variable {aliases exc} in
/-- What is constructed weighs something. -/
theorem mem_keys_weigh_iff_pos {os : List Occurrence} :
    exc ∈ (r.weigh aliases os).keys ↔ 0 < (r.weigh aliases os).weight exc := by
  rw [weight_weigh, List.sum_pos_iff_exists_pos_nat, weigh_eq_tally, Ordered.mem_keys_tally]
  constructor
  · intro h
    obtain ⟨⟨n, w⟩, he, rfl⟩ := List.mem_map.1 h
    obtain ⟨o, ho, hentry⟩ := List.mem_filterMap.1 he
    refine ⟨_, List.mem_map.2 ⟨o, ho, rfl⟩, ?_⟩
    obtain ⟨_, hconstruction, -⟩ := entryOf?_eq_some_iff_construction?.1 hentry
    simpa [hentry, Ordered.addition] using pos_of_construction? hconstruction
  · rintro ⟨w, hw, hpos⟩
    obtain ⟨o, ho, rfl⟩ := List.mem_map.1 hw
    cases hentry : r.entryOf? aliases o with
    | none => simp [hentry, Ordered.addition] at hpos
    | some e =>
      have he : e.1 = exc := by
        by_contra hne
        simp [hentry, Ordered.addition, hne] at hpos
      exact List.mem_map.2 ⟨e, List.mem_filterMap.2 ⟨o, ho, hentry⟩, he⟩

variable {c : ClassDecl} {u : SourceUnit} (hc : c ∈ u.classes)
include hc

/-- The methods weigh no more than their class. -/
theorem sum_weight_methods_le :
    (c.methods.map fun m => (r.weigh aliases m.occurrences).weight exc).sum ≤
      (r.weigh aliases c.occurrences).weight exc := by
  obtain ⟨-, -, span, hstmt⟩ := ClassDecl.exists_stmt_of_mem_classes hc
  have hout : ∀ s ∈ [c.outStep], s.parent.isRaise = false := by
    intro s hs
    rw [List.mem_singleton.1 hs, ClassDecl.outStep, hstmt]
    rfl
  calc (c.methods.map fun m => (r.weigh aliases m.occurrences).weight exc).sum
      = (r.weigh aliases (c.methods.flatMap fun m =>
          m.occurrences.map (Occurrence.within [c.outStep]))).weight exc := by
        rw [weight_weigh_flatMap]
        simp only [weight_weigh_within r aliases exc hout]
    _ ≤ (r.weigh aliases c.occurrences).weight exc :=
        weight_weigh_le r aliases exc (ClassDecl.methods_occurrences_subperm hc)

theorem mem_keys_of_mem_methodExceptions {m : MethodDecl} (hm : m ∈ c.methods)
    (h : exc ∈ r.methodExceptions m) : exc ∈ (r.classWeights c).keys := by
  rw [methodExceptions, ClassDecl.owner_of_mem_methods hm] at h
  have hpos := (r.mem_keys_weigh_iff_pos).1 h
  refine (r.mem_keys_weigh_iff_pos).2 (Nat.lt_of_lt_of_le ?_
    (r.sum_weight_methods_le (r.importedNames c.unit) exc hc))
  exact List.sum_pos_iff_exists_pos_nat.2 ⟨_, List.mem_map.2 ⟨m, hm, rfl⟩, hpos⟩

/-- Whatever names a file has imported, the weight of an exception in a class is twice the number of
its calls in `raise` statements and of the `raise` statements that name it, and the number of its
other calls.  The exceptions of the table are those that the class constructs, each once, in the
order of their first constructions.  Traversed each on its own, the methods of the class weigh no
more than the class, and the exceptions of a method are in the table of the class. -/
theorem weigh_counts_constructions :
    (∀ aliases : Ordered ImportedName,
      (∀ exc, (((r.weigh aliases c.occurrences).weight exc : Nat) : ℕ∞) =
        2 * ((r.raisedCalls aliases c.definition exc).encard +
            (r.namingRaises aliases c.definition exc).encard) +
          (r.otherCalls aliases c.definition exc).encard) ∧
      (∀ exc, exc ∈ (r.weigh aliases c.occurrences).keys ↔
        ∃ a, r.ConstructsAt aliases c.definition a exc) ∧
      (r.weigh aliases c.occurrences).keys.Nodup ∧
      ((r.weigh aliases c.occurrences).keys.Pairwise fun e f =>
        ∃ a, r.ConstructsAt aliases c.definition a e ∧
          ∀ b, r.ConstructsAt aliases c.definition b f →
            Node.MetFirst Node.start? (.stmt c.stmt) a b) ∧
      ∀ exc, (c.methods.map fun m => (r.weigh aliases m.occurrences).weight exc).sum ≤
        (r.weigh aliases c.occurrences).weight exc) ∧
    r.classWeights c = r.weigh (r.importedNames u) c.occurrences ∧
    ∀ m ∈ c.methods, ∀ exc ∈ r.methodExceptions m, exc ∈ (r.classWeights c).keys := by
  refine ⟨fun aliases => ⟨fun exc => ?_, fun exc => ?_, ?_, ?_, fun exc => ?_⟩, ?_, ?_⟩
  · exact r.weight_occurrencesBy aliases exc c.definition rfl
  · exact r.mem_keys_weigh_iff aliases c.definition rfl
  · rw [weigh_eq_tally]
    exact Ordered.nodup_keys_tally _
  · exact r.keys_weigh_pairwise aliases c.definition rfl
  · exact r.sum_weight_methods_le aliases exc hc
  · rw [classWeights, (ClassDecl.exists_stmt_of_mem_classes hc).1]
  · intro m hm exc h
    exact r.mem_keys_of_mem_methodExceptions exc hc hm h

omit hc

/-- Names that end in `Error` are those of exceptions. -/
def errorRules : ExceptionRules :=
  ⟨⟨["exceptions"], none⟩, ⟨["Error"], none⟩, ⟨[], none⟩⟩

/-- The method `def close(self): raise Gone from LateError()`. -/
def closeOrder : Stmt :=
  .node default (.function false "close" (.mk [] [.mk default "self" none] none [] [] none [])
    [.node default (.raises (some (.node default (.name "Gone")))
      (some (.node default (.call (.node default (.name "LateError")) [] []))))] [] none)

/-- A file with a class that has the method. -/
def orderFile : SourceUnit where
  path := ⟨"/", ["orders.py"]⟩
  text := "class Orders:"
  body := [.node default (.classDef "Orders" [] [] [closeOrder] [])]

/-- The method raises `GoneError` by the name `Gone`, and calls `LateError` in the same `raise`
statement: both are exceptions of the class. -/
theorem weigh_counts_constructions_orders :
    ∃ c ∈ orderFile.classes, ∃ aliases : Ordered ImportedName,
      "GoneError" ∈ (errorRules.weigh aliases c.occurrences).keys ∧
      "LateError" ∈ (errorRules.weigh aliases c.occurrences).keys ∧
      (((errorRules.weigh aliases c.occurrences).weight "GoneError" : Nat) : ℕ∞) =
        2 * ((errorRules.raisedCalls aliases c.definition "GoneError").encard +
            (errorRules.namingRaises aliases c.definition "GoneError").encard) +
          (errorRules.otherCalls aliases c.definition "GoneError").encard := by
  have hc : orderFile.classes.head (List.cons_ne_nil _ _) ∈ orderFile.classes := List.head_mem _
  obtain ⟨hweights, -⟩ := weigh_counts_constructions errorRules hc
  obtain ⟨hweight, hkeys, -⟩ :=
    hweights [("Gone", ⟨"shop.exceptions", 0, "GoneError", some "Gone"⟩)]
  refine ⟨_, hc, _, (hkeys _).2 ⟨[0, 1], ?_⟩, (hkeys _).2 ⟨[0, 1, 1], ?_⟩, hweight _⟩
  · refine ⟨List.cons_ne_nil _ _, _, rfl, .inr (raises_raises.2 ⟨by decide +kernel, "Gone", ?_⟩)⟩
    exact ⟨.name _ _, .inl ⟨_, rfl, rfl⟩⟩
  · refine ⟨List.cons_ne_nil _ _, _, rfl, .inl (calls_call.2 ⟨by decide +kernel, _, .name _ _, ?_⟩)⟩
    exact .inr ⟨by decide +kernel, rfl⟩

end ExceptionRules

end RouteLens
