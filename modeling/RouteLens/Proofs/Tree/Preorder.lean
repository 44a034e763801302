import Mathlib.Data.List.Basic
import Mathlib.Data.List.Flatten
import RouteLens.Proofs.Tree.Addresses

/-!
# What a traversal meets

A traversal works off a stack on which the parts of each construct are put in reverse.  It comes to
the recursive pre-order (`preorderBy`): each construct is followed by all that is in it, and the
parts of a construct come in the order of their places, and of their numbers where the places are
the same.

* Nothing is lost and nothing is met twice: the addresses that a traversal goes through are all
  those below the construct, each of them once (`mem_addressesBy`, `nodup_addressesBy`).
* The addresses stand in document order (`MetFirst`), which is a relation between two addresses and
  knows nothing of traversals.
* A traversal level by level (`breadthFirst`) meets the same, in another order.
-/

namespace RouteLens

theorem Position.before_or_eq_of_le {p q : Position} (h : p.le q = true) :
    p.Before q ∨ p = q := by
  rw [Position.le_iff] at h
  obtain ⟨line, column⟩ := p
  obtain ⟨line', column'⟩ := q
  simp only [Position.Before, Position.mk.injEq] at h ⊢
  omega

namespace Node

variable (start? : Node → Option Position)

/-! ## The recursive pre-order -/

/-- The parts of a construct in document order, each followed by its own parts. -/
def preorderBy (trail : List Step) (n : Node) : List Occurrence :=
  (orderedChildren start? n).attach.flatMap fun c =>
    let around := ⟨n, c.val.role⟩ :: trail
    ⟨c.val.node, around⟩ :: preorderBy around c.val.node
termination_by sizeOf n
decreasing_by exact sizeOf_lt_of_mem_children ((mem_orderedChildren start?).1 c.property)

theorem preorderBy_eq (trail : List Step) (n : Node) :
    preorderBy start? trail n = (orderedChildren start? n).flatMap fun c =>
      ⟨c.node, ⟨n, c.role⟩ :: trail⟩ :: preorderBy start? (⟨n, c.role⟩ :: trail) c.node := by
  rw [preorderBy]
  simp only [List.flatMap_subtype, List.unattach_attach]

theorem occurrencesBy_eq_preorderBy (trail : List Step) (n : Node) :
    occurrencesBy start? trail n = preorderBy start? trail n := by
  rw [occurrencesBy_eq, preorderBy_eq]
  refine List.flatMap_congr fun c hc => ?_
  have hpart := (mem_orderedChildren start?).1 hc
  rw [occurrencesBy_eq_preorderBy _ c.node]
termination_by sizeOf n
decreasing_by exact sizeOf_lt_of_mem_children hpart

/-! ## Numbers of parts in document order -/

/-- Whether a part is ordered before another one: by its place, and by its number if the places are
the same. -/
def RanksBefore (x y : Position × Nat) : Prop :=
  x.1.Before y.1 ∨ x.1 = y.1 ∧ x.2 < y.2

/-- The place by which the part with a number is ordered. -/
def keyAt? (n : Node) (i : Nat) : Option Position :=
  (keyed start? ⟨0, 0⟩ n.children)[i]?.map Prod.fst

/-- The parts of a construct with their places and numbers, ordered by both. -/
def ranked (n : Node) : List ((Position × Child) × Nat) :=
  sortBy (fun a b => a.1.1.le b.1.1) (keyed start? ⟨0, 0⟩ n.children).zipIdx

variable {start?}

theorem map_ranked (n : Node) :
    (ranked start? n).map (fun x => x.1.2) = orderedChildren start? n := by
  have hsorted := map_sortBy (f := Prod.fst) (fun a b => a.1.1.le b.1.1)
    (fun a b => a.1.le b.1) (fun _ _ => rfl) (keyed start? ⟨0, 0⟩ n.children).zipIdx
  rw [List.zipIdx_map_fst] at hsorted
  rw [orderedChildren, ← hsorted, List.map_map]
  rfl

theorem keyed_of_mem_ranked {n : Node} {x : (Position × Child) × Nat}
    (h : x ∈ ranked start? n) : (keyed start? ⟨0, 0⟩ n.children)[x.2]? = some x.1 := by
  rw [ranked, (sortBy_perm _ _).mem_iff] at h
  exact List.mem_zipIdx_iff_getElem?.1 h

theorem keyAt?_of_mem_ranked {n : Node} {x : (Position × Child) × Nat}
    (h : x ∈ ranked start? n) : keyAt? start? n x.2 = some x.1.1 := by
  rw [keyAt?, keyed_of_mem_ranked h]
  rfl

theorem child_of_mem_ranked {n : Node} {x : (Position × Child) × Nat}
    (h : x ∈ ranked start? n) : n.children[x.2]? = some x.1.2 := by
  rw [← map_snd_keyed start? ⟨0, 0⟩ n.children, List.getElem?_map, keyed_of_mem_ranked h]
  rfl

theorem exists_mem_ranked (start? : Node → Option Position) {n : Node} {i : Nat} {c : Child}
    (h : n.children[i]? = some c) :
    ∃ x ∈ ranked start? n, x.2 = i ∧ x.1.2 = c := by
  rw [← map_snd_keyed start? ⟨0, 0⟩ n.children, List.getElem?_map] at h
  obtain ⟨kc, hkc, rfl⟩ := Option.map_eq_some_iff.1 h
  refine ⟨(kc, i), ?_, rfl, rfl⟩
  rw [ranked, (sortBy_perm _ _).mem_iff]
  exact List.mem_zipIdx_iff_getElem?.2 hkc

/-- The order by place and number is strict, since no number occurs twice. -/
theorem ranked_pairwise (n : Node) :
    (ranked start? n).Pairwise fun x y => RanksBefore (x.1.1, x.2) (y.1.1, y.2) := by
  have hnumbers : (keyed start? ⟨0, 0⟩ n.children).zipIdx.Pairwise fun x y => x.2 < y.2 := by
    rw [← List.pairwise_map (R := (· < ·)) (f := Prod.snd), List.zipIdx_map_snd]
    exact List.pairwise_lt_range'
  have hsorted := sortBy_pairwise (fun a b => a.1.1.le b.1.1)
    (fun _ _ _ => Position.le_trans) (fun a b => a.1.1.le_total b.1.1) hnumbers
  refine hsorted.imp fun {x y} hxy => ?_
  rcases Position.before_or_eq_of_le hxy.1 with hbefore | heq
  · exact .inl hbefore
  · exact .inr ⟨heq, hxy.2 (heq ▸ Position.le_refl x.1.1)⟩

/-! ## Addresses in document order -/

variable (start?)

/-- Of two addresses in a construct the first one is met first: it leads to a construct around the
other one, or where they part it goes down to the part that is ordered first. -/
inductive MetFirst : Node → List Nat → List Nat → Prop
  | around {n : Node} {i : Nat} {b : List Nat} : MetFirst n [] (i :: b)
  | apart {n : Node} {i j : Nat} {a b : List Nat} {p q : Position}
      (hi : keyAt? start? n i = some p) (hj : keyAt? start? n j = some q)
      (h : RanksBefore (p, i) (q, j)) : MetFirst n (i :: a) (j :: b)
  | inside {n : Node} {i : Nat} {c : Child} {a b : List Nat} (hc : n.children[i]? = some c)
      (h : MetFirst c.node a b) : MetFirst n (i :: a) (i :: b)

/-- The addresses below a construct, in the order of a traversal. -/
def addressesBy (n : Node) : List (List Nat) :=
  (ranked start? n).attach.flatMap fun x =>
    [x.val.2] :: (addressesBy x.val.1.2.node).map (x.val.2 :: ·)
termination_by sizeOf n
decreasing_by
  exact sizeOf_lt_of_mem_children (List.mem_of_getElem? (child_of_mem_ranked x.property))

theorem addressesBy_eq (n : Node) :
    addressesBy start? n = (ranked start? n).flatMap fun x =>
      [x.2] :: (addressesBy start? x.1.2.node).map (x.2 :: ·) := by
  rw [addressesBy]
  simp only [List.flatMap_subtype, List.unattach_attach]

variable {start?}

/-- An address is gone through if it is one of a part, or one in a part. -/
theorem mem_addressesBy_iff_cons {n : Node} {a : List Nat} :
    a ∈ addressesBy start? n ↔ ∃ i c, n.children[i]? = some c ∧
      (a = [i] ∨ ∃ b ∈ addressesBy start? c.node, a = i :: b) := by
  rw [addressesBy_eq, List.mem_flatMap]
  constructor
  · rintro ⟨x, hx, ha⟩
    refine ⟨x.2, x.1.2, child_of_mem_ranked hx, ?_⟩
    rcases List.mem_cons.1 ha with rfl | ha
    · exact .inl rfl
    · obtain ⟨b, hb, rfl⟩ := List.mem_map.1 ha
      exact .inr ⟨b, hb, rfl⟩
  · rintro ⟨i, c, hc, ha⟩
    obtain ⟨x, hx, rfl, rfl⟩ := exists_mem_ranked start? hc
    refine ⟨x, hx, ?_⟩
    rcases ha with rfl | ⟨b, hb, rfl⟩
    · exact List.mem_cons_self
    · exact List.mem_cons_of_mem _ (List.mem_map_of_mem hb)

/-- The addresses of a traversal are all those below the construct. -/
theorem mem_addressesBy {o : Occurrence} {a : List Nat} :
    a ∈ addressesBy start? o.node ↔ a ≠ [] ∧ (o.at? a).isSome := by
  induction a generalizing o with
  | nil =>
    rw [mem_addressesBy_iff_cons]
    simp
  | cons i a ih =>
    rw [mem_addressesBy_iff_cons]
    constructor
    · rintro ⟨j, c, hc, ha⟩
      refine ⟨List.cons_ne_nil _ _, ?_⟩
      rcases ha with ha | ⟨b, hb, ha⟩
      · cases ha
        rw [Occurrence.at?_cons_of_child hc]
        rfl
      · cases ha
        rw [Occurrence.at?_cons_of_child hc]
        exact (ih.1 hb).2
    · rintro ⟨-, hsome⟩
      obtain ⟨p, hp⟩ := Option.isSome_iff_exists.1 hsome
      obtain ⟨c, hc, hp⟩ := Occurrence.exists_child_of_at?_cons hp
      refine ⟨i, c, hc, ?_⟩
      by_cases ha : a = []
      · exact .inl (by rw [ha])
      · exact .inr ⟨a, ih.2 ⟨ha, by rw [hp]; rfl⟩, rfl⟩

/-- What a traversal meets is what stands at its addresses. -/
theorem map_at?_addressesBy (o : Occurrence) :
    (addressesBy start? o.node).map o.at? =
      (occurrencesBy start? o.trail o.node).map some := by
  rw [addressesBy_eq, occurrencesBy_eq, ← map_ranked, List.flatMap_map, List.map_flatMap,
    List.map_flatMap]
  refine List.flatMap_congr fun x hx => ?_
  have hc := child_of_mem_ranked hx
  have hpart := List.mem_of_getElem? hc
  rw [List.map_cons, List.map_map, List.map_cons, Occurrence.at?_cons_of_child hc]
  refine congrArg (_ :: ·) ?_
  have hinner := map_at?_addressesBy ⟨x.1.2.node, ⟨o.node, x.1.2.role⟩ :: o.trail⟩
  simp only at hinner
  rw [← hinner]
  exact List.map_congr_left fun a _ => Occurrence.at?_cons_of_child hc a
termination_by sizeOf o.node
decreasing_by exact sizeOf_lt_of_mem_children hpart

/-- The traversal goes by the addresses in the order in which they are met. -/
theorem addressesBy_pairwise (n : Node) :
    (addressesBy start? n).Pairwise (MetFirst start? n) := by
  rw [addressesBy_eq, List.pairwise_flatMap]
  constructor
  · -- Within one part: the part itself, then what is in it.
    intro x hx
    have hc := child_of_mem_ranked hx
    have hpart := List.mem_of_getElem? hc
    rw [List.pairwise_cons]
    constructor
    · intro a ha
      obtain ⟨b, hb, rfl⟩ := List.mem_map.1 ha
      have hne : b ≠ [] := ((mem_addressesBy (o := ⟨x.1.2.node, []⟩)).1 hb).1
      obtain ⟨j, b, rfl⟩ := List.exists_cons_of_ne_nil hne
      exact .inside hc .around
    · rw [List.pairwise_map]
      exact (addressesBy_pairwise x.1.2.node).imp fun h => .inside hc h
  · -- Between two parts: every address starts with the number of its part.
    have hhead : ∀ {x : (Position × Child) × Nat} {a : List Nat},
        a ∈ [x.2] :: (addressesBy start? x.1.2.node).map (x.2 :: ·) → ∃ b, a = x.2 :: b := by
      intro x a ha
      rcases List.mem_cons.1 ha with rfl | ha
      · exact ⟨[], rfl⟩
      · obtain ⟨b, -, rfl⟩ := List.mem_map.1 ha
        exact ⟨b, rfl⟩
    refine (ranked_pairwise n).imp_of_mem fun {x y} hx hy hxy a ha b hb => ?_
    obtain ⟨a, rfl⟩ := hhead ha
    obtain ⟨b, rfl⟩ := hhead hb
    exact .apart (keyAt?_of_mem_ranked hx) (keyAt?_of_mem_ranked hy) hxy
termination_by sizeOf n
decreasing_by exact sizeOf_lt_of_mem_children hpart

theorem RanksBefore.irrefl (x : Position × Nat) : ¬ RanksBefore x x := by
  unfold RanksBefore Position.Before
  omega

theorem MetFirst.ne {n : Node} {a b : List Nat} (h : MetFirst start? n a b) : a ≠ b := by
  induction h with
  | around => exact (List.cons_ne_nil _ _).symm
  | @apart n i j a b p q hi hj h =>
    intro heq
    cases heq
    rw [hi] at hj
    cases hj
    exact RanksBefore.irrefl _ h
  | inside hc h ih =>
    intro heq
    exact ih (List.cons.inj heq).2

theorem RanksBefore.asymm {x y : Position × Nat} (h : RanksBefore x y) : ¬ RanksBefore y x := by
  obtain ⟨⟨line, column⟩, i⟩ := x
  obtain ⟨⟨line', column'⟩, j⟩ := y
  simp only [RanksBefore, Position.Before, Position.mk.injEq] at h ⊢
  omega

/-- Of two addresses one is met first. -/
theorem MetFirst.asymm {n : Node} {a b : List Nat} (h : MetFirst start? n a b) :
    ¬ MetFirst start? n b a := by
  induction h with
  | around =>
    intro h
    cases h
  | @apart n i j a b p q hi hj h =>
    intro h'
    cases h' with
    | apart hj' hi' h' =>
      rw [hi] at hi'
      rw [hj] at hj'
      cases hi'
      cases hj'
      exact h.asymm h'
    | inside =>
      rw [hi] at hj
      cases hj
      exact RanksBefore.irrefl _ h
  | @inside n i c a b hc h ih =>
    intro h'
    cases h' with
    | apart hi hi' h' =>
      rw [hi] at hi'
      cases hi'
      exact RanksBefore.irrefl _ h'
    | inside hc' h' =>
      rw [hc] at hc'
      cases hc'
      exact ih h'

/-- A traversal goes through no address twice. -/
theorem nodup_addressesBy (n : Node) : (addressesBy start? n).Nodup :=
  (addressesBy_pairwise n).imp fun h => h.ne

/-! ## Level by level -/

theorem children_perm_partsOf (o : Occurrence) : o.children.Perm (partsOf start? o) :=
  (orderedChildren_perm start? o.node).symm.map _

theorem countAll_children (o : Occurrence) : countAll o.children + 1 = o.node.count := by
  rw [count_eq, countAll, Occurrence.children, countChildren, List.foldr_map]

/-- Takes the first of a queue and puts its parts at the end, until the queue is empty. -/
def breadthFirst (queue : List Occurrence) : List Occurrence :=
  match queue with
  | [] => []
  | o :: queue => o :: breadthFirst (queue ++ o.children)
termination_by countAll queue
decreasing_by
  have hchildren := countAll_children o
  rw [countAll_append, countAll_cons]
  omega

/-- Going by levels meets the same occurrences as going in document order. -/
theorem breadthFirst_perm (start? : Node → Option Position) (queue : List Occurrence) :
    (breadthFirst queue).Perm
      (queue.flatMap fun o => o :: occurrencesBy start? o.trail o.node) := by
  match queue with
  | [] => rw [breadthFirst]; rfl
  | o :: queue =>
    have hchildren := countAll_children o
    have hrest := breadthFirst_perm start? (queue ++ o.children)
    have hinner : (occurrencesBy start? o.trail o.node).Perm
        (o.children.flatMap fun o => o :: occurrencesBy start? o.trail o.node) := by
      have hparts : occurrencesBy start? o.trail o.node =
          (partsOf start? o).flatMap fun o => o :: occurrencesBy start? o.trail o.node := by
        rw [occurrencesBy, pushAll_reverse, List.append_nil, drain_eq]
        rfl
      rw [hparts]
      exact (children_perm_partsOf o).symm.flatMap_right _
    rw [breadthFirst, List.flatMap_cons, List.cons_append]
    refine List.Perm.cons o (hrest.trans ?_)
    rw [List.flatMap_append]
    exact List.perm_append_comm.trans (hinner.symm.append_right _)
termination_by countAll queue
decreasing_by
  rw [countAll_append, countAll_cons]
  omega

/-! ## Traversals -/

/-- The loop makes one round for each construct that is on the stack or in it. -/
theorem length_drain (met stack : List Occurrence) :
    (drain start? met stack).length = met.length + countAll stack := by
  match stack with
  | [] => rw [drain, List.length_reverse]; rfl
  | o :: stack =>
    have hround := countAll_pushAll start? o stack
    rw [drain, length_drain, List.length_cons]
    omega
termination_by countAll stack
decreasing_by omega

theorem length_occurrencesBy (trail : List Step) (n : Node) :
    (occurrencesBy start? trail n).length + 1 = n.count := by
  rw [occurrencesBy, pushAll_reverse, List.append_nil, length_drain, List.length_nil, Nat.zero_add,
    countAll_partsOf]

/-- A traversal ends, after one round for each part of the construct.  It comes to the recursive
pre-order, meets the same as a traversal level by level, and goes through each address below the
construct once, in document order.  The traversal of a method is that of the statements of its body,
one after the other. -/
theorem occurrencesBy_complete (start? : Node → Option Position) (trail : List Step) (n : Node) :
    (occurrencesBy start? trail n).length + 1 = n.count ∧
    occurrencesBy start? trail n = preorderBy start? trail n ∧
    (occurrencesBy start? trail n).Perm (breadthFirst [⟨n, trail⟩]).tail ∧
    (∃ addresses : List (List Nat), addresses.Nodup ∧
      (∀ a, a ∈ addresses ↔ a ≠ [] ∧ (Occurrence.at? ⟨n, trail⟩ a).isSome) ∧
      addresses.map (Occurrence.at? ⟨n, trail⟩) = (occurrencesBy start? trail n).map some ∧
      addresses.Pairwise (MetFirst start? n)) ∧
    descendantsBy start? n = (preorderBy start? [] n).map Occurrence.node ∧
    ∀ m : MethodDecl, m.occurrences = m.body.flatMap fun s =>
      ⟨.stmt s, [m.outStep]⟩ :: preorderBy Node.start? [m.outStep] (.stmt s) := by
  refine ⟨length_occurrencesBy trail n, occurrencesBy_eq_preorderBy start? trail n, ?_, ?_, ?_, ?_⟩
  · have hperm := breadthFirst_perm start? [⟨n, trail⟩]
    rw [breadthFirst, List.flatMap_singleton] at hperm
    rw [breadthFirst]
    exact (hperm.cons_inv).symm
  · exact ⟨addressesBy start? n, nodup_addressesBy n,
      fun a => mem_addressesBy (o := ⟨n, trail⟩), map_at?_addressesBy ⟨n, trail⟩,
      addressesBy_pairwise n⟩
  · rw [← occurrencesBy_eq_preorderBy]
    rfl
  · intro m
    rw [MethodDecl.occurrences]
    refine List.flatMap_congr fun s _ => ?_
    rw [← occurrencesBy_eq_preorderBy]
    rfl

end Node

end RouteLens
