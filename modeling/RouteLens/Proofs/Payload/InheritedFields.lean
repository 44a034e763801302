import RouteLens.Proofs.Ordered
import RouteLens.Proofs.Payload.Ancestry

/-!
# Inherited fields

The fields of a class are collected by a walk along its bases, which lays the declarations of a
class over those that were found before when the class is finished.  So each field has the
declaration of the class that is finished last among those that declare it (`tours_fields`).

A class is finished after all others that it reaches, so its own declarations win; and where no
class inherits from itself, a declaration is never replaced by one that comes from further up
(`fields_resolve_declarations`).
-/

namespace RouteLens

section

variable {edition : Nat} [CharacterNames edition]

/-- The declaration of a field by a class itself; the last one counts. -/
def ClassDecl.lastProperty? (c : ClassDecl) (f : String) : Option PropertyDecl :=
  c.properties.reverse.find? (·.name == f)

theorem ClassDecl.isSome_lastProperty?_iff {c : ClassDecl} {f : String} :
    (c.lastProperty? f).isSome = true ↔ f ∈ c.properties.map PropertyDecl.name := by
  simp [lastProperty?]

theorem ClassDecl.declares_of_lastProperty? {c : ClassDecl} {f : String} {p : PropertyDecl}
    (h : c.lastProperty? f = some p) : f ∈ c.properties.map PropertyDecl.name :=
  isSome_lastProperty?_iff.1 (Option.isSome_of_eq_some h)

theorem ClassDecl.lastProperty?_ne_none {c : ClassDecl} {f : String}
    (h : f ∈ c.properties.map PropertyDecl.name) : c.lastProperty? f ≠ none :=
  Option.isSome_iff_ne_none.1 (isSome_lastProperty?_iff.2 h)

namespace PayloadRules

variable {classes : String → List ClassDecl} {r : PayloadRules} {c k : ClassDecl}
  {cs os : List ClassDecl} {seen seen' : Visited} {f : String} {p : PropertyDecl}

/-! ## The last declaration -/

/-- The declaration of a field by the last one of some classes that declares it. -/
def lastDeclaration? (os : List ClassDecl) (f : String) : Option PropertyDecl :=
  os.reverse.findSome? (·.lastProperty? f)

theorem lastDeclaration?_append (os os' : List ClassDecl) (f : String) :
    lastDeclaration? (os ++ os') f = (lastDeclaration? os' f).or (lastDeclaration? os f) := by
  simp [lastDeclaration?, List.findSome?_append]

theorem lastDeclaration?_singleton (c : ClassDecl) (f : String) :
    lastDeclaration? [c] f = c.lastProperty? f := by
  cases h : c.lastProperty? f <;> simp [lastDeclaration?, h]

theorem isSome_lastDeclaration?_iff :
    (lastDeclaration? os f).isSome = true ↔ ∃ c ∈ os, f ∈ c.properties.map PropertyDecl.name := by
  simp [lastDeclaration?, ← ClassDecl.isSome_lastProperty?_iff]

/-- Where the last declaration stands: no class behind declares the field. -/
theorem exists_of_lastDeclaration? (h : lastDeclaration? os f = some p) :
    ∃ before w behind, os = before ++ w :: behind ∧ w.lastProperty? f = some p ∧
      ∀ c ∈ behind, c.lastProperty? f = none := by
  obtain ⟨before, w, behind, hos, hw, hnone⟩ := List.findSome?_eq_some_iff.1 h
  refine ⟨behind.reverse, w, before.reverse, ?_, hw, fun c hc => hnone c (List.mem_reverse.1 hc)⟩
  rw [← List.reverse_reverse os, hos]
  simp

theorem get?_overlay_properties (t : Ordered PropertyDecl) (c : ClassDecl) (f : String) :
    (t.overlay (c.properties.map fun p => (p.name, p))).get? f =
      (c.lastProperty? f).or (t.get? f) := by
  rw [Ordered.get?_overlay, ← List.map_reverse]
  congr 1
  simp only [Ordered.get?, ClassDecl.lastProperty?, List.find?_map, Option.map_map,
    Function.comp_def, Option.map_id']

/-! ## What a walk collects -/

/-- What a walk from some classes collects on top of the fields found before. -/
structure Collects (classes : String → List ClassDecl) (r : PayloadRules) (seen : Visited)
    (cs : List ClassDecl) (done : Ordered PropertyDecl) (out : Ordered PropertyDecl × Visited) :
    Prop where
  nodup_keys : out.1.keys.Nodup
  exists_tour : ∃ os, Tours classes r seen cs os out.2 ∧
    ∀ f, out.1.get? f = (lastDeclaration? os f).or (done.get? f)

/-- The fields of several classes are those of each in turn, the later ones winning. -/
theorem collects_mergeVisited {keys : Finset (Path × Nat)} {n : Nat} {S : Fault → Prop}
    {visit : Visit (Ordered PropertyDecl)}
    (hvisit : ∀ c ∈ cs, ∀ seen, unvisited keys seen ≤ n →
      Meets S (Collects classes r seen [c] []) ((visit c seen).answer classes))
    (hseen : unvisited keys seen ≤ n) {done : Ordered PropertyDecl} (hdone : done.keys.Nodup) :
    Meets S (Collects classes r seen cs done)
      ((mergeVisited visit cs done seen).answer classes) := by
  induction cs generalizing seen done with
  | nil => exact .ok ⟨hdone, [], .nil, fun _ => rfl⟩
  | cons c cs ih =>
    simp only [mergeVisited, Inquiry.answer_seq]
    refine (hvisit c List.mem_cons_self seen hseen).bind fun out hout => ?_
    obtain ⟨hnodup, os₁, hfirst, hfound⟩ := hout
    have hrest := ih (fun c hc => hvisit c (List.mem_cons_of_mem _ hc))
      ((unvisited_le_of_subset hfirst.subset).trans hseen)
      (Ordered.nodup_keys_overlay hdone out.1)
    refine hrest.mono (fun _ hf => hf) fun out' hout' => ?_
    obtain ⟨hnodup', os₂, hrest, hfound'⟩ := hout'
    refine ⟨hnodup', os₁ ++ os₂, hfirst.cons hrest, fun f => ?_⟩
    have hempty : Ordered.get? ([] : Ordered PropertyDecl) f = none := rfl
    rw [hfound', Ordered.get?_overlay, Ordered.get?_reverse hnodup, hfound, hempty, Option.or_none,
      lastDeclaration?_append, Option.or_assoc]

/-- The fields of a class are its own over those of its bases that were not visited before. -/
theorem collects_fieldsFrom {keys : Finset (Path × Nat)} (hkeys : Covers keys classes)
    (limit : Nat) (hc : c.key ∈ keys) (hseen : unvisited keys seen ≤ limit) :
    Meets (BasesFail classes r c) (Collects classes r seen [c] [])
      ((r.fieldsFrom limit c seen).answer classes) := by
  refine visit_induction (P := fun limit c seen => Meets (BasesFail classes r c)
    (Collects classes r seen [c] []) ((r.fieldsFrom limit c seen).answer classes))
    (fun {limit c seen} hmem => ?_) (fun {limit c seen} hmem hless ih => ?_) limit c seen hc hseen
  · rw [fieldsFrom_of_mem hmem]
    exact .ok ⟨List.nodup_nil, [], .pass hmem .nil, fun _ => rfl⟩
  · rw [fieldsFrom, if_neg (by simpa using hmem)]
    simp only [Inquiry.answer_seq]
    cases hbs : (r.projectBases c).answer classes with
    | error f => exact .error ⟨c, .refl, baseNames_of_projectBases_error hbs⟩
    | ok bs =>
      have hbase (b : ClassDecl) (hb : b ∈ bs) : IsBase classes r c b := ⟨bs, hbs, hb⟩
      have hwalk : Meets (BasesFail classes r c) (Collects classes r (c.key :: seen) bs [])
          ((mergeVisited (r.fieldsFrom limit) bs [] (c.key :: seen)).answer classes) := by
        refine collects_mergeVisited (fun b hb seen' hseen' => ?_) hless List.nodup_nil
        exact (ih b seen' (hkeys b (hbase b hb).inReach) hseen').mono
          (fun f hf => hf.of_reaches (.single (hbase b hb))) fun _ h => h
      refine hwalk.bind fun out hout => ?_
      obtain ⟨hnodup, os, htour, hfound⟩ := hout
      -- the class is finished behind its bases, and its declarations are laid over theirs
      refine .ok ⟨Ordered.nodup_keys_overlay hnodup _, os ++ [c], .single hmem hbs htour, ?_⟩
      intro f
      rw [get?_overlay_properties, hfound, lastDeclaration?_append, lastDeclaration?_singleton,
        Option.or_assoc]

/-- Each field of a class has the declaration of the class that is finished last. -/
theorem tours_fields {limit : Nat} (hlimit : SufficesWith classes k limit) :
    Meets (BasesFail classes r k)
      (fun fields => fields.keys.Nodup ∧ ∃ os seen', Tours classes r [] [k] os seen' ∧
        ∀ f, fields.get? f = lastDeclaration? os f)
      ((r.fields limit k).answer classes) := by
  obtain ⟨keys, hkeys, hk, hcard⟩ := hlimit
  simp only [fields, Inquiry.answer_seq]
  refine (collects_fieldsFrom hkeys limit hk (unvisited_nil.trans_le hcard)).bind fun out hout => ?_
  obtain ⟨hnodup, os, htour, hfound⟩ := hout
  exact .ok ⟨hnodup, os, out.2, htour, fun f => (hfound f).trans Option.or_none⟩

/-! ## Which declaration wins -/

/-- A class is finished behind its bases in a walk from it. -/
theorem Tours.exists_below (hk : k.key ∉ seen) (h : Tours classes r seen [k] os seen') :
    ∃ bs os', (r.projectBases k).answer classes = .ok bs ∧ os = os' ++ [k] ∧
      Tours classes r (k.key :: seen) bs os' seen' := by
  cases h with
  | pass hmem _ => exact (hk hmem).elim
  | enter _ hbs below hnil =>
    cases hnil
    exact ⟨_, _, hbs, rfl, below⟩

/-- No class is finished before one that it inherits from, in a walk that starts with nothing
marked. -/
theorem Tours.pairwise_of_acyclic (hkeys : KeysTellApart classes r k)
    (hacyclic : Acyclic classes r k) (h : Tours classes r [] [k] os seen') :
    os.Pairwise fun a b => ¬ Inherits classes r a b :=
  h.pairwise hkeys hacyclic (List.forall_mem_singleton.2 .refl)
    fun _ _ _ _ hmem => (List.not_mem_nil hmem).elim

/-- What the fields of a class are: the names that the classes it reaches declare, each one with the
declaration of one of these classes.  The class itself comes first, and without circles no class is
passed over for one that it inherits from. -/
structure Resolves (classes : String → List ClassDecl) (r : PayloadRules) (k : ClassDecl)
    (fields : Ordered PropertyDecl) : Prop where
  nodup_keys : fields.keys.Nodup
  mem_keys_iff : ∀ f, f ∈ fields.keys ↔
    ∃ c, Reaches classes r k c ∧ f ∈ c.properties.map PropertyDecl.name
  own : ∀ f p, k.lastProperty? f = some p → fields.get? f = some p
  chosen : ∀ f p, fields.get? f = some p →
    ∃ w, Reaches classes r k w ∧ w.lastProperty? f = some p ∧
      (Acyclic classes r k → ∀ c, Reaches classes r k c →
        f ∈ c.properties.map PropertyDecl.name → ¬ Inherits classes r c w)

/-- The last declarations of a tour are those that the class resolves to. -/
theorem resolves_of_tour {fields : Ordered PropertyDecl} (hkeys : KeysTellApart classes r k)
    (hnodup : fields.keys.Nodup) (h : Tours classes r [] [k] os seen')
    (hfields : ∀ f, fields.get? f = lastDeclaration? os f) : Resolves classes r k fields where
  nodup_keys := hnodup
  mem_keys_iff f := by
    simp only [Ordered.mem_keys_iff, hfields, isSome_lastDeclaration?_iff, h.mem_iff_reaches hkeys]
  own f p hp := by
    obtain ⟨bs, os', -, rfl, -⟩ := h.exists_below List.not_mem_nil
    rw [hfields, lastDeclaration?_append, lastDeclaration?_singleton, hp, Option.some_or]
  chosen f p hp := by
    obtain ⟨before, w, behind, rfl, hw, hnone⟩ := exists_of_lastDeclaration? (hfields f ▸ hp)
    have hreached : Reaches classes r k w := (h.mem_iff_reaches hkeys).1 (by simp)
    refine ⟨w, hreached, hw, fun hacyclic c hc hdeclares => ?_⟩
    rcases List.mem_append.1 ((h.mem_iff_reaches hkeys).2 hc) with hc' | hc'
    · have hpairs := List.pairwise_append.1 (h.pairwise_of_acyclic hkeys hacyclic)
      exact hpairs.2.2 c hc' w List.mem_cons_self
    · rcases List.mem_cons.1 hc' with rfl | hc'
      · exact hacyclic c hreached
      · exact (ClassDecl.lastProperty?_ne_none hdeclares (hnone c hc')).elim

end PayloadRules

open PayloadRules

/-- The search for the fields of a class ends, for every class of a table and whatever its bases
are, and it fails exactly if a class is reached whose bases cannot be read.  The fields are those
that the classes declare that are reached; the declarations of the class itself win, and without
circles no declaration is replaced by one of a class that is inherited from. -/
theorem fields_resolve_declarations (T : ClassTable) (r : PayloadRules) {k : ClassDecl}
    (hk : k ∈ T.declared) :
    (∃ least, ∀ n, least ≤ n → (Recursion.fields T.classes r n k).run =
      some ((r.fields (T.limit + 1) k).answer T.classes)) ∧
    Meets (BasesFail T.classes r k)
      (fun fields => Resolves T.classes r k fields ∧ ∀ f, ¬ BasesFail T.classes r k f)
      ((r.fields (T.limit + 1) k).answer T.classes) := by
  have hlimit := T.suffices_limit.with_any k
  have htell : KeysTellApart T.classes r k := (ClassTable.identifies_of_mem hk).keysTellApart r
  refine ⟨(Recursion.ends_fields hlimit).exists_least, ?_⟩
  refine (tours_fields hlimit).mono (fun _ hf => hf) fun fields hfields => ?_
  obtain ⟨hnodup, os, seen', htour, hfields⟩ := hfields
  exact ⟨resolves_of_tour htell hnodup htour hfields, htour.not_basesFail htell⟩

/-- A field of the root of a diamond that one side declares again.  The class at the tip has the
name of the root, so that the name leads to the root. -/
def diamond : String :=
  "class A:\n    x: int\nclass B(A):\n    x: str\nclass C(A):\n    y: int\nclass A(B, C): 0\n"

end

/-- The side that declares the field again wins over the root, which the other side inherits
from. -/
theorem fields_resolve_declarations_diamond :
    let rules : PayloadRules := ⟨5, ["BaseModel"], ["Enum"]⟩
    ∃ u k fields p, (SourceUnit.ofText ⟨"/", ["m.py"]⟩ diamond).toOption = some u ∧
      u.classes[3]? = some k ∧ u.findClass? k.name ≠ some k ∧
      (rules.fields (u.classTable.limit + 1) k).answer u.classTable.classes = .ok fields ∧
      fields.keys = ["x", "y"] ∧ fields.get? "x" = some p ∧ p.owner.name = "B" ∧
      PayloadRules.Resolves u.classTable.classes rules k fields := by
  intro rules
  have hchecked : ((SourceUnit.ofText ⟨"/", ["m.py"]⟩ diamond).toOption.any fun u =>
      u.classes[3]?.any fun k =>
        (u.findClass? k.name).any (fun c => decide (c.number ≠ k.number)) &&
        ((rules.fields (u.classTable.limit + 1) k).answer u.classTable.classes).toOption.any
          fun fields => decide (fields.keys = ["x", "y"]) &&
            (fields.get? "x").any fun p => decide (p.owner.name = "B")) = true := by
    decide +kernel
  obtain ⟨u, hu, hchecked⟩ := (Option.any_eq_true _ _).1 hchecked
  obtain ⟨k, hk, hchecked⟩ := (Option.any_eq_true _ _).1 hchecked
  obtain ⟨hshadowed, hchecked⟩ := Bool.and_eq_true_iff.1 hchecked
  obtain ⟨fields, hfields, hchecked⟩ := exists_ok_of_any hchecked
  simp only [Bool.and_eq_true, decide_eq_true_eq] at hchecked
  obtain ⟨p, hp, howner⟩ := (Option.any_eq_true _ _).1 hchecked.2
  have hmeets :=
    (fields_resolve_declarations u.classTable rules (List.mem_of_getElem? hk)).2
  rw [hfields] at hmeets
  have hfirst : u.findClass? k.name ≠ some k := by
    intro hfind
    rw [hfind] at hshadowed
    simp at hshadowed
  cases hmeets with
  | ok hresolves =>
    exact ⟨u, k, fields, p, hu, hk, hfirst, hfields, hchecked.1, hp, of_decide_eq_true howner,
      hresolves.1⟩

/-- A class with a field and a base that cannot be read. -/
def unreadableBase : String :=
  "class A(\"\\0\"):\n    x: int\n"

/-- A class whose base cannot be read has no fields, although it declares one. -/
theorem fields_unreadable :
    let rules : PayloadRules := ⟨5, ["BaseModel"], ["Enum"]⟩
    ∃ u, (SourceUnit.ofText ⟨"/", ["m.py"]⟩ unreadableBase).toOption = some u ∧
      ∃ k ∈ u.classTable.declared, "x" ∈ k.properties.map PropertyDecl.name ∧
        (rules.fields (u.classTable.limit + 1) k).answer u.classTable.classes =
          .error .nullCharacter := by
  intro rules
  have hchecked : ((SourceUnit.ofText ⟨"/", ["m.py"]⟩ unreadableBase).toOption.any fun u =>
      u.classTable.declared.any fun k => "x" ∈ k.properties.map PropertyDecl.name ∧
        ((rules.fields (u.classTable.limit + 1) k).answer u.classTable.classes).map
          Ordered.keys = .error .nullCharacter) = true := by decide +kernel
  obtain ⟨u, hu, hchecked⟩ := (Option.any_eq_true _ _).1 hchecked
  obtain ⟨k, hk, hfails⟩ := List.any_eq_true.1 hchecked
  obtain ⟨hdeclares, hfails⟩ := of_decide_eq_true hfails
  refine ⟨u, hu, k, hk, hdeclares, ?_⟩
  generalize (rules.fields (u.classTable.limit + 1) k).answer u.classTable.classes = x at hfails ⊢
  cases x with
  | ok fields => cases hfails
  | error f => exact congrArg Except.error (Except.error.inj hfails)

end RouteLens
