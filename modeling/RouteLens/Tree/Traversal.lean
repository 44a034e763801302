import RouteLens.Tree.Node

/-!
# Document order

Traversal of a construct in the order in which a reader meets its parts.  Siblings are ordered by
where they start; a construct without a place of its own counts from its earliest part, and one
without any part stays behind its predecessor.  Which constructs have a place, and where, is a
parameter of the order (`start?`).  Every visited construct is given with its trail, the chain of
constructs around it, from which its place in loops and `raise` statements is read off.
-/

namespace RouteLens

/-- One step from a construct out to its parent, and the role it plays there. -/
structure Step where
  parent : Node
  role : Role

/-- A construct and the steps out to where the traversal started, nearest first. -/
structure Occurrence where
  node : Node
  trail : List Step

/-! ## Sorting -/

section Sorting

variable {α β : Type} (le : α → α → Bool)

/-- Puts a member before the first one of a list that it may precede. -/
def insertBy (x : α) : List α → List α
  | [] => [x]
  | y :: ys => if le x y then x :: y :: ys else y :: insertBy x ys

/-- Sorts a list; what may stand in either order stays in the order that it has. -/
def sortBy (xs : List α) : List α :=
  xs.foldr (insertBy le) []

theorem insertBy_perm (x : α) (ys : List α) : (insertBy le x ys).Perm (x :: ys) := by
  induction ys with
  | nil => exact .refl _
  | cons y ys ih =>
    unfold insertBy
    split
    · exact .refl _
    · exact (ih.cons y).trans (.swap x y ys)

theorem sortBy_perm (xs : List α) : (sortBy le xs).Perm xs := by
  induction xs with
  | nil => exact .refl _
  | cons x xs ih => exact (insertBy_perm le x _).trans (ih.cons x)

/-- Sorting by what is kept can be done before or after the rest is dropped. -/
theorem map_sortBy (le' : β → β → Bool) {f : α → β} (h : ∀ a b, le' (f a) (f b) = le a b)
    (xs : List α) : (sortBy le xs).map f = sortBy le' (xs.map f) := by
  have hinsert (x : α) (ys : List α) :
      (insertBy le x ys).map f = insertBy le' (f x) (ys.map f) := by
    induction ys with
    | nil => rfl
    | cons y ys ih => simp only [insertBy, List.map_cons, h, apply_ite (List.map f), ih]
  induction xs with
  | nil => rfl
  | cons x xs ih =>
    rw [sortBy, List.foldr_cons, hinsert, List.map_cons, sortBy, List.foldr_cons]
    exact congrArg _ ih

/-- In a sorted list members precede each other, and those that may stand in either order are as
they were. -/
theorem sortBy_pairwise {S : α → α → Prop} (htrans : ∀ a b c, le a b → le b c → le a c)
    (htotal : ∀ a b, le a b || le b a) {xs : List α} (h : xs.Pairwise S) :
    (sortBy le xs).Pairwise fun a b => le a b ∧ (le b a → S a b) := by
  have hinsert (x : α) (ys : List α) (hx : ∀ y ∈ ys, S x y)
      (hys : ys.Pairwise fun a b => le a b ∧ (le b a → S a b)) :
      (insertBy le x ys).Pairwise fun a b => le a b ∧ (le b a → S a b) := by
    induction ys with
    | nil => exact List.pairwise_singleton _ x
    | cons y ys ih =>
      obtain ⟨hy, hrest⟩ := List.pairwise_cons.1 hys
      unfold insertBy
      split
      · rename_i hxy
        refine List.pairwise_cons.2 ⟨fun z hz => ⟨?_, fun _ => hx z hz⟩, hys⟩
        rcases List.mem_cons.1 hz with rfl | hz
        · exact hxy
        · exact htrans x y z hxy (hy z hz).1
      · rename_i hxy
        refine List.pairwise_cons.2 ⟨fun z hz => ?_, ih (fun z hz => hx z (.tail _ hz)) hrest⟩
        rcases List.mem_cons.1 ((insertBy_perm le x ys).mem_iff.1 hz) with rfl | hz
        · have hyx := htotal z y
          rw [Bool.or_eq_true, or_iff_right hxy] at hyx
          exact ⟨hyx, fun h => absurd h hxy⟩
        · exact hy z hz
  induction xs with
  | nil => exact .nil
  | cons x xs ih =>
    obtain ⟨hx, hxs⟩ := List.pairwise_cons.1 h
    exact hinsert x _ (fun y hy => hx y ((sortBy_perm le xs).mem_iff.1 hy)) (ih hxs)

end Sorting

namespace Node

/-! ## Number of constructs -/

/-- The number of constructs in a construct, itself included. -/
def count (n : Node) : Nat :=
  n.children.attach.foldr (fun c total => count c.val.node + total) 0 + 1
termination_by sizeOf n
decreasing_by exact sizeOf_lt_of_mem_children c.property

/-- The number of constructs in some children. -/
def countChildren (cs : List Child) : Nat :=
  cs.foldr (fun c total => count c.node + total) 0

theorem count_eq (n : Node) : count n = countChildren n.children + 1 := by
  rw [count, countChildren]
  simp only [List.foldr_subtype, List.unattach_attach]

theorem countChildren_perm {cs ds : List Child} (h : cs.Perm ds) :
    countChildren cs = countChildren ds := by
  refine h.foldr_eq' (fun c _ d _ total => ?_) 0
  exact Nat.add_left_comm d.node.count c.node.count total

/-- The number of constructs that are met or stand in what is met. -/
def countAll (os : List Occurrence) : Nat :=
  os.foldr (fun o total => count o.node + total) 0

@[simp] theorem countAll_cons (o : Occurrence) (os : List Occurrence) :
    countAll (o :: os) = count o.node + countAll os := rfl

@[simp] theorem countAll_append (os os' : List Occurrence) :
    countAll (os ++ os') = countAll os + countAll os' := by
  induction os with
  | nil => exact (Nat.zero_add _).symm
  | cons o os ih => rw [List.cons_append, countAll_cons, countAll_cons, ih, Nat.add_assoc]

section Order

variable (start? : Node → Option Position)

/-- Every place of a construct and of its parts. -/
def places (n : Node) : List Position :=
  (start? n).toList ++ n.children.attach.flatMap fun c => places c.val.node
termination_by sizeOf n
decreasing_by exact sizeOf_lt_of_mem_children c.property

theorem places_eq (n : Node) :
    places start? n = (start? n).toList ++ n.children.flatMap fun c => places start? c.node := by
  rw [places]
  simp only [List.flatMap_subtype, List.unattach_attach]

/-- The earliest of some places. -/
def earliest? : List Position → Option Position
  | [] => none
  | p :: ps => some (ps.foldl Position.earlier p)

/-- The place by which a construct is ordered: its own, or that of its earliest part. -/
def reference? (n : Node) : Option Position :=
  match start? n with
  | some p => some p
  | none => earliest? (places start? n)

/-- Pairs every child with the place it is ordered by, given the place before it. -/
def keyed (last : Position) : List Child → List (Position × Child)
  | [] => []
  | c :: cs =>
    let p := (reference? start? c.node).getD last
    (p, c) :: keyed p cs

/-- The direct parts of a construct in document order. -/
def orderedChildren (n : Node) : List Child :=
  (sortBy (fun a b => a.1.le b.1) (keyed start? ⟨0, 0⟩ n.children)).map Prod.snd

theorem map_snd_keyed (last : Position) (cs : List Child) :
    (keyed start? last cs).map Prod.snd = cs := by
  induction cs generalizing last with
  | nil => rfl
  | cons c cs ih => simp [keyed, ih]

/-- Document order rearranges the parts of a construct. -/
theorem orderedChildren_perm (n : Node) : (orderedChildren start? n).Perm n.children := by
  have h := (sortBy_perm (fun a b => a.1.le b.1) (keyed start? ⟨0, 0⟩ n.children)).map Prod.snd
  rwa [map_snd_keyed] at h

theorem mem_orderedChildren {n : Node} {c : Child} :
    c ∈ orderedChildren start? n ↔ c ∈ n.children :=
  (orderedChildren_perm start? n).mem_iff

/-! ## Traversal with a stack -/

/-- The direct parts of what was met, in document order. -/
def partsOf (o : Occurrence) : List Occurrence :=
  (orderedChildren start? o.node).map fun c => ⟨c.node, ⟨o.node, c.role⟩ :: o.trail⟩

/-- Puts occurrences on a stack, one after the other; the last one is on top. -/
def pushAll (stack : List Occurrence) (os : List Occurrence) : List Occurrence :=
  os.foldl (fun stack o => o :: stack) stack

theorem pushAll_reverse (stack os : List Occurrence) : pushAll stack os.reverse = os ++ stack := by
  induction os with
  | nil => rfl
  | cons o os ih =>
    rw [pushAll, List.reverse_cons, List.foldl_append]
    exact congrArg (o :: ·) ih

theorem countAll_partsOf (o : Occurrence) : countAll (partsOf start? o) + 1 = o.node.count := by
  rw [count_eq, ← countChildren_perm (orderedChildren_perm start? o.node)]
  simp only [countAll, partsOf, countChildren, List.foldr_map]

/-- A round takes one construct off the stack and puts all that is in it back. -/
theorem countAll_pushAll (o : Occurrence) (stack : List Occurrence) :
    countAll (pushAll stack (partsOf start? o).reverse) + 1 = countAll (o :: stack) := by
  have hparts := countAll_partsOf start? o
  rw [pushAll_reverse, countAll_append, countAll_cons]
  omega

/-- Takes the top off a stack and puts its parts there, the first of them on top, until the stack is
empty.  What was taken off before is `met`, the last one first. -/
def drain (met stack : List Occurrence) : List Occurrence :=
  match stack with
  | [] => met.reverse
  | o :: stack => drain (o :: met) (pushAll stack (partsOf start? o).reverse)
termination_by countAll stack
decreasing_by
  have hround := countAll_pushAll start? o stack
  omega

/-- The parts of a construct, parts of parts included, in document order.  A construct comes before
its parts. -/
def occurrencesBy (trail : List Step) (n : Node) : List Occurrence :=
  drain start? [] (pushAll [] (partsOf start? ⟨n, trail⟩).reverse)

/-- Each construct on the stack is met before all that is in it, and all of that before the next one
on the stack. -/
theorem drain_eq (met stack : List Occurrence) :
    drain start? met stack =
      met.reverse ++ stack.flatMap fun o => o :: occurrencesBy start? o.trail o.node := by
  match stack with
  | [] => rw [drain, List.flatMap_nil, List.append_nil]
  | o :: stack =>
    have hround := countAll_pushAll start? o stack
    have hparts := countAll_partsOf start? o
    have hrest := drain_eq (o :: met) (pushAll stack (partsOf start? o).reverse)
    have hinner := drain_eq [] (pushAll [] (partsOf start? o).reverse)
    rw [pushAll_reverse] at hrest hinner
    rw [drain, pushAll_reverse, hrest, List.flatMap_cons, occurrencesBy, pushAll_reverse, hinner]
    simp
termination_by countAll stack
decreasing_by
  · omega
  · rw [pushAll_reverse, List.append_nil, countAll_cons]
    omega

theorem occurrencesBy_eq (trail : List Step) (n : Node) :
    occurrencesBy start? trail n = (orderedChildren start? n).flatMap fun c =>
      ⟨c.node, ⟨n, c.role⟩ :: trail⟩ :: occurrencesBy start? (⟨n, c.role⟩ :: trail) c.node := by
  rw [occurrencesBy, pushAll_reverse, drain_eq, partsOf, List.append_nil, List.flatMap_map]
  rfl

/-- The parts of a construct in document order. -/
def descendantsBy (n : Node) : List Node :=
  (occurrencesBy start? [] n).map Occurrence.node

end Order

/-- The parts of a construct with their trails, in the order of the places that they have. -/
def occurrences (trail : List Step) (n : Node) : List Occurrence :=
  n.occurrencesBy start? trail

/-- The parts of a construct in the order of the places that they have. -/
def descendants (n : Node) : List Node :=
  n.descendantsBy start?

/-- A loop statement. -/
def isLoopStmt : Node → Bool
  | .stmt (.node _ (.forLoop ..)) => true
  | .stmt (.node _ (.whileLoop ..)) => true
  | _ => false

/-- A comprehension. -/
def isComprehension : Node → Bool
  | .expr (.node _ (.listComp ..)) => true
  | .expr (.node _ (.setComp ..)) => true
  | .expr (.node _ (.dictComp ..)) => true
  | .expr (.node _ (.generator ..)) => true
  | _ => false

/-- A loop of either kind. -/
def isLoop (n : Node) : Bool :=
  n.isLoopStmt || n.isComprehension

/-- A `raise` statement. -/
def isRaise : Node → Bool
  | .stmt (.node _ (.raises ..)) => true
  | _ => false

end Node

/-- Whether a child in this role runs once per round.  `below` is the role of the next step down the
same trail: the iterable of a first clause is outside the repetition. -/
def Role.repeats : Role → Option Role → Bool
  | .repeated, _ => true
  | .firstClause, below => below != some .iterable
  | _, _ => false

namespace Occurrence

/-- Whether some loop along a trail repeats what the trail leads to. -/
def inLoopFrom (below : Option Role) : List Step → Bool
  | [] => false
  | s :: rest => s.role.repeats below || inLoopFrom (some s.role) rest

/-- Whether the construct is repeated by some loop around it. -/
def inLoop (o : Occurrence) : Bool :=
  inLoopFrom none o.trail

/-- Whether the construct is part of a `raise` statement. -/
def inRaise (o : Occurrence) : Bool :=
  o.trail.any fun s => s.parent.isRaise

/-- Whether the construct is repeated by the outermost construct of its trail. -/
def repeatedByRoot (o : Occurrence) : Bool :=
  match o.trail.reverse with
  | [] => false
  | s :: rest => s.role.repeats (rest.head?.map Step.role)

end Occurrence

end RouteLens
