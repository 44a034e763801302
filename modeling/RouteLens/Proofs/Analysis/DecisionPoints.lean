import Mathlib.Algebra.Order.BigOperators.Group.List
import Mathlib.Algebra.Order.Ring.Nat
import RouteLens.Analysis.Complexity
import RouteLens.Proofs.Source.Classes
import RouteLens.Proofs.Tree.Preorder

/-!
# Complexity adds up

Each direct part of a construct adds its own decisions and those of all that is in it
(`Node.complexity_eq`), so that every decision counts once, in whichever order the parts are gone
through (`Node.Enumerates.complexity_eq`).  A file has at least the decisions of the methods of its
classes.
-/

namespace RouteLens

theorem complexityOf_eq (nodes : List Node) :
    complexityOf nodes = 1 + (nodes.map Node.decisions).sum := by
  induction nodes with
  | nil => rfl
  | cons n nodes ih =>
    change n.decisions + complexityOf nodes = _
    rw [ih, List.map_cons, List.sum_cons]
    omega

namespace Node

/-! ## Parts of a construct -/

section Traversal

variable (start? : Node → Option Position)

/-- Where a traversal started does not matter for what it meets. -/
theorem map_node_occurrencesBy (trail : List Step) (n : Node) :
    (occurrencesBy start? trail n).map Occurrence.node = descendantsBy start? n := by
  rw [descendantsBy, occurrencesBy_eq, occurrencesBy_eq, List.map_flatMap, List.map_flatMap]
  refine List.flatMap_congr fun c hc => ?_
  have hpart := (mem_orderedChildren start?).1 hc
  rw [List.map_cons, List.map_cons, map_node_occurrencesBy _ c.node,
    map_node_occurrencesBy _ c.node]
termination_by sizeOf n
decreasing_by all_goals exact sizeOf_lt_of_mem_children hpart

theorem descendantsBy_eq (n : Node) :
    descendantsBy start? n =
      (orderedChildren start? n).flatMap fun c => c.node :: descendantsBy start? c.node := by
  rw [descendantsBy, occurrencesBy_eq, List.map_flatMap]
  refine List.flatMap_congr fun c _ => ?_
  rw [List.map_cons, map_node_occurrencesBy]

end Traversal

/-- The decisions of a construct and of all that is in it. -/
def allDecisions (n : Node) : Nat :=
  n.decisions + (n.complexity - 1)

theorem sum_decisions (n : Node) : ((n :: n.descendants).map decisions).sum = n.allDecisions := by
  rw [List.map_cons, List.sum_cons, allDecisions, complexity, complexityOf_eq,
    Nat.add_sub_cancel_left]

/-- The complexity of a construct comes from its direct parts. -/
theorem complexity_eq (n : Node) :
    n.complexity = 1 + (n.children.map fun c => c.node.allDecisions).sum := by
  -- The traversal sorts the parts of a construct, which does not change a sum over them.
  have hparts : (n.descendants.map decisions).sum =
      ((orderedChildren start? n).map fun c => c.node.allDecisions).sum := by
    rw [descendants, descendantsBy_eq, List.map_flatMap, List.flatMap_def, List.sum_flatten,
      List.map_map]
    exact congrArg List.sum (List.map_congr_left fun c _ => sum_decisions c.node)
  rw [complexity, complexityOf_eq, hparts, ((orderedChildren_perm start? n).map _).sum_eq]

/-! ## Any order -/

/-- Addresses lead to all parts of a construct, to each of them once. -/
structure Enumerates (n : Node) (addresses : List (List Nat)) : Prop where
  nodup : addresses.Nodup
  mem_iff : ∀ a, a ∈ addresses ↔ a ≠ [] ∧ (Occurrence.at? ⟨n, []⟩ a).isSome

theorem enumerates_addressesBy (start? : Node → Option Position) (n : Node) :
    n.Enumerates (addressesBy start? n) :=
  ⟨nodup_addressesBy n, fun _ => mem_addressesBy (o := ⟨n, []⟩)⟩

variable {n : Node} {addresses addresses' : List (List Nat)}

theorem Enumerates.perm (h : n.Enumerates addresses) (h' : n.Enumerates addresses') :
    addresses.Perm addresses' :=
  (List.perm_ext_iff_of_nodup h.nodup h'.nodup).2 fun a => (h.mem_iff a).trans (h'.mem_iff a).symm

theorem Enumerates.complexity_eq (h : n.Enumerates addresses) :
    n.complexity =
      1 + ((addresses.filterMap (Occurrence.at? ⟨n, []⟩)).map fun o => o.node.decisions).sum := by
  -- One enumeration is that of the traversal, and any other one is a rearrangement of it.
  have hmet : (addressesBy start? n).filterMap (Occurrence.at? ⟨n, []⟩) = n.occurrences [] := by
    calc
      _ = ((addressesBy start? n).map (Occurrence.at? ⟨n, []⟩)).filterMap id := by
        rw [List.filterMap_map]
        rfl
      _ = n.occurrences [] := by
        rw [map_at?_addressesBy ⟨n, []⟩, List.filterMap_map]
        exact List.filterMap_some
  rw [(((h.perm (enumerates_addressesBy start? n)).filterMap _).map _).sum_eq, hmet, complexity,
    complexityOf_eq, descendants, descendantsBy, List.map_map]
  rfl

end Node

/-! ## Methods of a file -/

theorem MethodDecl.complexity_eq (m : MethodDecl) :
    m.complexity = 1 + (m.body.map fun s => (Node.stmt s).allDecisions).sum := by
  rw [complexity, complexityOf_eq, occurrences, List.map_flatMap, List.map_flatMap,
    List.flatMap_def, List.sum_flatten, List.map_map]
  refine congrArg (1 + List.sum ·) (List.map_congr_left fun s _ => ?_)
  rw [Function.comp_apply, List.map_cons, Node.occurrences, Node.map_node_occurrencesBy]
  exact Node.sum_decisions (.stmt s)

theorem sum_filterMap_le {α β : Type} {f : α → Option β} {weight : β → Nat} {bound : α → Nat}
    (h : ∀ x y, f x = some y → weight y ≤ bound x) (xs : List α) :
    ((xs.filterMap f).map weight).sum ≤ (xs.map bound).sum := by
  induction xs with
  | nil => exact Nat.le_refl 0
  | cons x xs ih =>
    rw [List.map_cons, List.sum_cons]
    cases hf : f x with
    | none =>
      rw [List.filterMap_cons_none hf]
      omega
    | some y =>
      have hy := h x y hf
      rw [List.filterMap_cons_some hf, List.map_cons, List.sum_cons]
      omega

/-- Statements of a construct have no more decisions than the construct. -/
theorem Node.sum_allDecisions_le {n : Node} {body : List Stmt}
    (h : (stmtParts .plain body).Sublist n.children) :
    (body.map fun s => (Node.stmt s).allDecisions).sum ≤ n.allDecisions := by
  have hparts := (h.map fun c => c.node.allDecisions).sum_le_sum fun _ _ => Nat.zero_le _
  rw [stmtParts, List.map_map] at hparts
  have hn := n.complexity_eq
  calc
    _ ≤ (n.children.map fun c => c.node.allDecisions).sum := hparts
    _ ≤ n.allDecisions := by
      rw [allDecisions]
      omega

/-- The methods of a class body have no more decisions than its statements. -/
theorem ClassDecl.sum_methods_le (c : ClassDecl) :
    (c.methods.map fun m => m.complexity - 1).sum ≤
      (c.body.map fun s => (Node.stmt s).allDecisions).sum := by
  refine sum_filterMap_le (fun s m hm => ?_) c.body
  split at hm
  · cases hm
    rename_i span isAsync name params body decorators returns
    rw [MethodDecl.complexity_eq, Nat.add_sub_cancel_left]
    refine Node.sum_allDecisions_le ?_
    change (stmtParts .plain body).Sublist (_ :: stmtParts .plain body ++ _ ++ _)
    grind
  · cases hm

/-- The methods of the classes of a file have no more decisions than its statements. -/
theorem SourceUnit.sum_classes_le (u : SourceUnit) :
    (u.classes.map fun c => (c.methods.map fun m => m.complexity - 1).sum).sum ≤
      (u.body.map fun s => (Node.stmt s).allDecisions).sum := by
  have hstmts : (u.body.map fun s => (Node.stmt s).allDecisions) =
      u.body.zipIdx.map fun x => (Node.stmt x.1).allDecisions := by
    conv_lhs => rw [← List.zipIdx_map_fst 0 u.body, List.map_map]
    rfl
  rw [hstmts]
  refine sum_filterMap_le (fun x c hc => ?_) u.body.zipIdx
  obtain ⟨-, -, -, span, hstmt⟩ := SourceUnit.classAt?_eq_some hc
  rw [hstmt]
  refine (ClassDecl.sum_methods_le _).trans (Node.sum_allDecisions_le ?_)
  change (stmtParts .plain c.body).Sublist (_ ++ _ ++ stmtParts .plain c.body ++ _)
  grind

/-- Complexity adds up.  One less than the complexity of a construct is the sum over its direct
parts of their own decisions and of one less than their complexity; it is also the sum of the
decisions of all parts, in whichever order they are enumerated.  So a file has at least the
decisions of all methods of its classes. -/
theorem Node.complexity_additive (n : Node) (u : SourceUnit) :
    n.complexity =
        1 + (n.children.map fun c => c.node.decisions + (c.node.complexity - 1)).sum ∧
      (∃ addresses, n.Enumerates addresses) ∧
      (∀ addresses, n.Enumerates addresses → n.complexity =
        1 + ((addresses.filterMap (Occurrence.at? ⟨n, []⟩)).map fun o => o.node.decisions).sum) ∧
      (u.classes.map fun c => (c.methods.map fun m => m.complexity - 1).sum).sum ≤
        u.node.complexity - 1 := by
  refine ⟨n.complexity_eq, ⟨_, enumerates_addressesBy start? n⟩, fun _ h => h.complexity_eq, ?_⟩
  have hfile : u.node.complexity - 1 = (u.body.map fun s => (Node.stmt s).allDecisions).sum := by
    rw [complexity_eq, Nat.add_sub_cancel_left, SourceUnit.node, children, stmtParts, List.map_map]
    rfl
  rw [hfile]
  exact u.sum_classes_le

end RouteLens
