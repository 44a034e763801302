import RouteLens.Proofs.Tree.Trails

/-!
# Addresses

A part of a construct is told from all others by the numbers of the parts on the way down to it.
Two constructs at different addresses may be alike; what stands at an address is one occurrence
(`Occurrence.at?`).  Its trail leads to it, step by step along the address (`leads_of_at?`), and all
that a trail leads to has an address (`Leads.exists_at?`).
-/

namespace RouteLens

namespace Occurrence

/-- The direct parts of what was met, in grammatical order. -/
def children (o : Occurrence) : List Occurrence :=
  o.node.children.map fun c => ⟨c.node, ⟨o.node, c.role⟩ :: o.trail⟩

/-- What stands at an address: the numbers of the parts to go down to, one after the other. -/
def at? (o : Occurrence) : List Nat → Option Occurrence
  | [] => some o
  | i :: address => o.children[i]?.bind (·.at? address)

@[simp] theorem at?_nil (o : Occurrence) : o.at? [] = some o := rfl

theorem at?_cons (o : Occurrence) (i : Nat) (address : List Nat) :
    o.at? (i :: address) = o.children[i]?.bind (·.at? address) := rfl

theorem at?_cons_of_child {o : Occurrence} {i : Nat} {c : Child}
    (hc : o.node.children[i]? = some c) (address : List Nat) :
    o.at? (i :: address) = at? ⟨c.node, ⟨o.node, c.role⟩ :: o.trail⟩ address := by
  rw [at?_cons, children, List.getElem?_map, hc]
  rfl

theorem exists_child_of_at?_cons {o p : Occurrence} {i : Nat} {address : List Nat}
    (h : o.at? (i :: address) = some p) :
    ∃ c, o.node.children[i]? = some c ∧
      at? ⟨c.node, ⟨o.node, c.role⟩ :: o.trail⟩ address = some p := by
  rw [at?_cons, children, List.getElem?_map] at h
  obtain ⟨q, hq, hp⟩ := Option.bind_eq_some_iff.1 h
  obtain ⟨c, hc, rfl⟩ := Option.map_eq_some_iff.1 hq
  exact ⟨c, hc, hp⟩

theorem at?_append (o : Occurrence) (first second : List Nat) :
    o.at? (first ++ second) = (o.at? first).bind (·.at? second) := by
  induction first generalizing o with
  | nil => rfl
  | cons i first ih =>
    rw [List.cons_append, at?_cons, at?_cons, Option.bind_assoc]
    exact congrArg _ (funext ih)

end Occurrence

namespace Node

theorem Leads.exists_at? {n m : Node} {inner : List Step} (h : Leads n inner m)
    (trail : List Step) :
    ∃ address, Occurrence.at? ⟨n, trail⟩ address = some ⟨m, inner ++ trail⟩ := by
  induction h with
  | here => exact ⟨[], rfl⟩
  | @part outer k c h hc ih =>
    obtain ⟨address, haddress⟩ := ih
    obtain ⟨i, hi⟩ := List.mem_iff_getElem?.1 hc
    refine ⟨address ++ [i], ?_⟩
    rw [Occurrence.at?_append, haddress]
    exact Occurrence.at?_cons_of_child hi []

theorem leads_of_at? {o p : Occurrence} {address : List Nat} (h : o.at? address = some p) :
    ∃ inner, p.trail = inner ++ o.trail ∧ inner.length = address.length ∧
      Leads o.node inner p.node := by
  induction address generalizing o with
  | nil =>
    cases h
    exact ⟨[], rfl, rfl, .here⟩
  | cons i address ih =>
    obtain ⟨c, hc, h⟩ := Occurrence.exists_child_of_at?_cons h
    obtain ⟨inner, htrail, hlength, hleads⟩ := ih h
    refine ⟨inner ++ [⟨o.node, c.role⟩], by simp [htrail], by simp [hlength], ?_⟩
    exact hleads.trans (.part .here (List.mem_of_getElem? hc))

end Node

end RouteLens
