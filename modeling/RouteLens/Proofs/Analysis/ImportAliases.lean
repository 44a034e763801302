import RouteLens.Proofs.Analysis.ExceptionChoice
import RouteLens.Proofs.Tree.Relabelling

/-!
# Renamed imports

An exception is imported under a local name, which is what the class says, and is weighed and
reported under its own.  If the import binds another local name, and the class says that name
instead (`RenamesAlias`), then nothing changes: the weights and their order, the exceptions of every
method, and the representative exception with the module that it comes from.

The two files are traversed side by side (`Node.IsMirror`).  What is met differs in local names
only, and each of them stands for the same exception in its own table.
-/

namespace RouteLens

/-! ## Another local name -/

/-- A name, or another one in place of a certain name. -/
def renameTo (old new name : String) : String :=
  if name = old then new else name

/-- Another local name for an imported name that has a certain one. -/
def ImportedName.rebind (old new : String) (i : ImportedName) : ImportedName :=
  if i.localName = old then { i with bound := some new } else i

/-- What an alias of a `from` import brings in. -/
def Alias.importedFrom (module : Option String) (level : Nat) (a : Alias) : ImportedName :=
  ⟨module.getD "", level, a.name, a.bound⟩

/-- The local name `new` in place of `old`: names say it, and the `from` import that binds `old`
binds it.  A star binds no name. -/
def aliasRenaming (old new : String) : Relabelling where
  name := renameTo old new
  imported a :=
    if a.name ≠ "*" ∧ (a.importedFrom none 0).localName = old then { a with bound := some new }
    else a
  span_imported a := by
    split <;> rfl

/-- A relabelling of imports only. -/
def Relabelling.onlyImports (f : Relabelling) : Relabelling :=
  { f with name := id }

theorem renameTo_injOn {old new x y : String} (hx : x ≠ new) (hy : y ≠ new)
    (h : renameTo old new x = renameTo old new y) : x = y := by
  unfold renameTo at h
  split at h <;> split at h <;> simp_all

namespace ImportedName

variable {old new : String} (i : ImportedName)

@[simp] theorem name_rebind : (i.rebind old new).name = i.name := by
  unfold rebind
  split <;> rfl

@[simp] theorem module_rebind : (i.rebind old new).module = i.module := by
  unfold rebind
  split <;> rfl

@[simp] theorem qualifiedModule_rebind :
    (i.rebind old new).qualifiedModule = i.qualifiedModule := by
  unfold rebind
  split <;> rfl

theorem localName_rebind (hnew : new ≠ "") :
    (i.rebind old new).localName = renameTo old new i.localName := by
  unfold rebind renameTo
  by_cases hold : i.localName = old
  · rw [if_pos hold, if_pos hold]
    simp [localName, hnew]
  · rw [if_neg hold, if_neg hold]

end ImportedName

/-! ## Imports of the two files -/

/-- The names that a construct imports. -/
def Node.importedHere : Node → List ImportedName
  | .stmt (.node _ (.importFrom module names level)) =>
    (names.filter (·.name != "*")).map (Alias.importedFrom module level)
  | _ => []

theorem SourceUnit.imports_eq (u : SourceUnit) :
    u.imports = (u.node.occurrences []).flatMap fun o => o.node.importedHere := by
  show u.node.descendants.flatMap Node.importedHere = _
  rw [Node.descendants, Node.descendantsBy, List.flatMap_map]
  rfl

theorem Alias.importedFrom_aliasRenaming {old new : String} {a : Alias} (ha : a.name ≠ "*")
    (module : Option String) (level : Nat) :
    ((aliasRenaming old new).imported a).importedFrom module level =
      (a.importedFrom module level).rebind old new := by
  have hname : (a.importedFrom module level).localName = (a.importedFrom none 0).localName := rfl
  unfold ImportedName.rebind
  rw [hname]
  by_cases hold : (a.importedFrom none 0).localName = old
  · have himported : (aliasRenaming old new).imported a = { a with bound := some new } :=
      if_pos ⟨ha, hold⟩
    rw [himported, if_pos hold]
    rfl
  · have himported : (aliasRenaming old new).imported a = a := if_neg fun h => hold h.2
    rw [himported, if_neg hold]

theorem name_aliasRenaming (old new : String) (a : Alias) :
    ((aliasRenaming old new).imported a).name = a.name := by
  simp only [aliasRenaming]
  split <;> rfl

section Imports

variable {old new : String}

/-- Constructs that are relabelled in such ways import the same under other local names. -/
def RenamesImports (old new : String) (f : Relabelling) : Prop :=
  f.imported = (aliasRenaming old new).imported

theorem Node.importedHere_relabel {f : Relabelling} (hf : RenamesImports old new f) (n : Node) :
    (n.relabel f).importedHere = n.importedHere.map (ImportedName.rebind old new) := by
  cases n with
  | stmt s =>
    obtain ⟨span, form⟩ := s
    cases form
    case importFrom module names level =>
      show ((names.map f.imported).filter (·.name != "*")).map (Alias.importedFrom module level) =
        ((names.filter (·.name != "*")).map (Alias.importedFrom module level)).map _
      rw [show f.imported = (aliasRenaming old new).imported from hf, List.filter_map, List.map_map,
        List.map_map]
      simp only [Function.comp_def, name_aliasRenaming]
      refine List.map_congr_left fun a ha => ?_
      exact a.importedFrom_aliasRenaming (by simpa using (List.mem_filter.1 ha).2) module level
    all_goals rfl
  | _ => rfl

theorem Node.Relabels.importedHere {n m : Node} (h : n.Relabels (RenamesImports old new) m) :
    m.importedHere = n.importedHere.map (ImportedName.rebind old new) := by
  cases h with
  | node hf => exact Node.importedHere_relabel hf n
  | importedAlias => rfl
  | file => rfl

/-- Files whose statements are relabelled in such ways import the same under other local names. -/
theorem SourceUnit.imports_of_relabel {u u' : SourceUnit}
    (h : List.Forall₂ (fun s s' => ∃ f, RenamesImports old new f ∧ s' = s.relabel f)
      u.body u'.body) : u'.imports = u.imports.map (ImportedName.rebind old new) := by
  have hmirror : List.Forall₂ (Occurrence.Mirrors (Node.Relabels (RenamesImports old new)))
      (u.node.occurrences []) (u'.node.occurrences []) :=
    (Node.isMirror_relabels _).occurrences u.node (.file h) .nil
  rw [imports_eq, imports_eq, List.map_flatMap]
  exact (flatMap_eq_of_forall₂ hmirror fun o _ o' ho => ho.node.importedHere.symm).symm

end Imports

/-! ## Tables of imported names -/

namespace ExceptionRules

/-- A table in which one key is another one, and so is the local name of what it holds. -/
def rebindTable (old new : String) (t : Ordered ImportedName) : Ordered ImportedName :=
  t.map fun e => (renameTo old new e.1, e.2.rebind old new)

variable {old new : String} {t : Ordered ImportedName} {k : String}

/-- A name that was not the new one before is looked up under its new key. -/
theorem get?_rebindTable (ht : new ∉ t.keys) (hk : k ≠ new) :
    (rebindTable old new t).get? (renameTo old new k) =
      (t.get? k).map (ImportedName.rebind old new) := by
  unfold rebindTable Ordered.get?
  induction t with
  | nil => rfl
  | cons e t ih =>
    obtain ⟨he, ht⟩ : new ≠ e.1 ∧ new ∉ Ordered.keys t := by simpa [Ordered.keys] using ht
    by_cases hek : e.1 = k
    · simp [hek]
    · have hne : renameTo old new e.1 ≠ renameTo old new k :=
        fun h => hek (renameTo_injOn he.symm hk h)
      simpa [hek, hne] using ih ht

/-- Giving an import another local name renames its entry in the table of aliases. -/
theorem aliasTable_rebind (hnew : new ≠ "") {is : List ImportedName}
    (his : ∀ i ∈ is, i.localName ≠ new) :
    aliasTable (is.map (ImportedName.rebind old new)) = rebindTable old new (aliasTable is) := by
  induction is using List.reverseRecOn with
  | nil => rfl
  | append_singleton is i ih =>
    have hprev : ∀ j ∈ is, j.localName ≠ new := fun j hj => his j (List.mem_append_left _ hj)
    have hkeys : new ∉ (aliasTable is).keys := by
      rw [mem_keys_aliasTable]
      rintro ⟨j, hj, hlocal⟩
      exact hprev j hj hlocal
    have hi : i.localName ≠ new := his i (by simp)
    have hkey : (rebindTable old new (aliasTable is)).hasKey (renameTo old new i.localName) =
        (aliasTable is).hasKey i.localName := by
      rw [Bool.eq_iff_iff, Ordered.hasKey_iff, Ordered.hasKey_iff, Ordered.mem_keys_iff,
        Ordered.mem_keys_iff, get?_rebindTable hkeys hi, Option.isSome_map]
    rw [List.map_append, List.map_singleton, aliasTable_concat, ih hprev, aliasTable_concat,
      Ordered.putNew, Ordered.putNew, ImportedName.localName_rebind i hnew, hkey]
    split
    · rfl
    · simp [rebindTable]

section Imported

variable (r : ExceptionRules) {u u' : SourceUnit}
  (himports : u'.imports = u.imports.map (ImportedName.rebind old new)) (hnew : new ≠ "")
  (hunbound : ∀ i ∈ u.imports, i.localName ≠ new)
include himports hnew hunbound

theorem importedNames_rebind : r.importedNames u' = rebindTable old new (r.importedNames u) := by
  rw [importedNames_eq, importedNames_eq, himports, List.filter_map]
  simp only [Function.comp_def, ImportedName.module_rebind, ImportedName.name_rebind]
  refine aliasTable_rebind hnew fun i hi => ?_
  exact hunbound i (List.mem_filter.1 hi).1

theorem originals_rebind :
    r.originals u' = (r.originals u).map fun e => (e.1, e.2.rebind old new) := by
  unfold originals
  rw [importedNames_rebind r himports hnew hunbound, rebindTable, List.map_map]
  have hvalues := Ordered.overlay_map (ImportedName.rebind old new) []
    ((r.importedNames u).map fun e => (e.2.name, e.2))
  rw [List.map_map] at hvalues
  simpa [Function.comp_def] using hvalues

end Imported

theorem sourceOf_rebind {u u' : SourceUnit}
    (himports : u'.imports = u.imports.map (ImportedName.rebind old new)) (name : String) :
    sourceOf u' name = sourceOf u name := by
  unfold sourceOf
  rw [himports, List.find?_map, Option.map_map]
  simp [Function.comp_def]

theorem testImports_rebind (r : ExceptionRules) {u u' : SourceUnit}
    (himports : u'.imports = u.imports.map (ImportedName.rebind old new)) :
    r.testImports u' = r.testImports u := by
  unfold testImports
  rw [himports, List.forM_eq_forM, List.forM_map]
  simp only [ImportedName.module_rebind, ImportedName.name_rebind]

/-- An exception is declared under the same name, if the file has imported it under the old name. -/
theorem declaredName_rebindTable (ht : new ∉ t.keys) (hold : old ∈ t.keys) (hk : k ≠ new) :
    declaredName (rebindTable old new t) (renameTo old new k) = declaredName t k := by
  unfold declaredName
  rw [get?_rebindTable ht hk]
  cases hget : t.get? k with
  | some i => exact i.name_rebind
  | none =>
    have hne : k ≠ old := by
      rintro rfl
      simp [Ordered.mem_keys_iff, hget] at hold
    exact if_neg hne

end ExceptionRules

/-! ## What the two classes construct -/

/-- The expression that a construct calls or raises. -/
def Node.constructed? : Node → Option Expr
  | .expr (.node _ (.call func _ _)) => some func
  | .stmt (.node _ (.raises exc _)) => exc
  | _ => none

namespace Node

variable {n : Node} {e : Expr}

theorem child_of_constructed? (h : n.constructed? = some e) :
    ∃ c ∈ n.children, c.node = .expr e := by
  unfold constructed? at h
  split at h
  · cases h
    exact ⟨_, List.mem_cons_self, rfl⟩
  · cases h
    exact ⟨_, List.mem_cons_self, rfl⟩
  · cases h

theorem constructed?_relabel (f : Relabelling) (n : Node) :
    (n.relabel f).constructed? = n.constructed?.map (Expr.relabel f) := by
  cases n with
  | expr e =>
    obtain ⟨span, form⟩ := e
    cases form <;> rfl
  | stmt s =>
    obtain ⟨span, form⟩ := s
    cases form
    case raises exc cause => exact relabelOption_eq f exc
    all_goals rfl
  | _ => rfl

theorem isRaise_relabel (f : Relabelling) (n : Node) : (n.relabel f).isRaise = n.isRaise := by
  cases n with
  | stmt s =>
    obtain ⟨span, form⟩ := s
    cases form <;> rfl
  | _ => rfl

namespace Relabels

variable {P : Relabelling → Prop} {m : Node}

theorem isRaise_eq (h : n.Relabels P m) : m.isRaise = n.isRaise := by
  cases h with
  | @node f => exact isRaise_relabel f n
  | importedAlias => rfl
  | file => rfl

theorem constructed?_eq {f : Relabelling} (h : n.Relabels (· = f) m) :
    m.constructed? = n.constructed?.map (Expr.relabel f) := by
  cases h with
  | node hf =>
    subst hf
    exact constructed?_relabel _ n
  | importedAlias => rfl
  | file => rfl

end Relabels

end Node

theorem Node.relabels_stmt (f : Relabelling) (s : Stmt) :
    (Node.stmt s).Relabels (· = f) (.stmt (s.relabel f)) :=
  .node (P := (· = f)) rfl (.stmt s)

theorem Node.bodyOccurrences_relabel {f : Relabelling} {trail trail' : List Step}
    (htrail : List.Forall₂ (Step.Mirrors (Node.Relabels (· = f))) trail trail')
    (body : List Stmt) :
    List.Forall₂ (Occurrence.Mirrors (Node.Relabels (· = f))) (bodyOccurrences trail body)
      (bodyOccurrences trail' (body.map (Stmt.relabel f))) := by
  have hbody : List.Forall₂ (fun s s' => s' = s.relabel f) body (body.map (Stmt.relabel f)) := by
    rw [List.forall₂_map_right_iff, List.forall₂_same]
    exact fun s _ => rfl
  refine forall₂_flatMap hbody fun s _ s' hs => ?_
  subst hs
  have hnode := Node.relabels_stmt f s
  exact .cons ⟨hnode, htrail⟩ ((Node.isMirror_relabels _).occurrences _ hnode htrail)

theorem Occurrence.Mirrors.inRaise_eq {P : Relabelling → Prop} {o o' : Occurrence}
    (h : o.Mirrors (Node.Relabels P) o') : o'.inRaise = o.inRaise := by
  obtain ⟨node, trail⟩ := o
  obtain ⟨node', trail'⟩ := o'
  have htrail : List.Forall₂ (Step.Mirrors (Node.Relabels P)) trail trail' := h.trail
  simp only [inRaise]
  clear h
  induction htrail with
  | nil => rfl
  | cons hstep _ ih => rw [List.any_cons, List.any_cons, ih, hstep.2.isRaise_eq]

namespace ExceptionRules

/-- What an occurrence constructs, and with which weight, is read off its node and its trail. -/
theorem construction?_eq (o : Occurrence) : construction? o =
    (o.node.constructed?.bind plainName?).map fun n =>
      (n, if o.node.isRaise || o.inRaise then 2 else 1) := by
  unfold construction?
  split
  · rename_i hnode
    rw [hnode]
    rfl
  · rename_i hnode
    rw [hnode]
    rfl
  · rename_i hcall hraise
    have hnone : o.node.constructed? = none := by
      unfold Node.constructed?
      split
      · rename_i hnode
        exact absurd hnode (hcall _ _ _ _)
      · rename_i exc _ hnode
        cases exc with
        | none => rfl
        | some e => exact absurd hnode (hraise _ _ _)
      · rfl
    rw [hnone]
    rfl

variable {old new : String}

theorem plainName?_relabel {e : Expr}
    (h : ∀ span value, e ≠ .node span (.attribute value old)) :
    plainName? (e.relabel (aliasRenaming old new)) = (plainName? e).map (renameTo old new) := by
  obtain ⟨span, form⟩ := e
  cases form <;> try rfl
  -- An attribute keeps its name.
  rename_i value attr
  have hne : attr ≠ old := by
    rintro rfl
    exact h span value rfl
  exact congrArg some (if_neg hne).symm

/-- A name that ends what is constructed is not the new one, and is no attribute by the old one. -/
def Avoids (old new : String) (n : Node) : Prop :=
  ∀ e, n.constructed? = some e →
    (∀ span value, e ≠ .node span (.attribute value old)) ∧ ¬ e.EndsIn new

/-- The constructions are the same when a local name is replaced in the tree and in the aliases. -/
theorem constructions_relabel {t : Ordered ImportedName} (ht : new ∉ t.keys)
    (hold : old ∈ t.keys) {os os' : List Occurrence}
    (h : List.Forall₂ (Occurrence.Mirrors (Node.Relabels (· = aliasRenaming old new))) os os')
    (havoids : ∀ o ∈ os, Avoids old new o.node) :
    constructions (rebindTable old new t) os' = constructions t os := by
  rw [constructions, constructions, List.map_filterMap, List.map_filterMap,
    List.filterMap_eq_flatMap_toList, List.filterMap_eq_flatMap_toList]
  refine (flatMap_eq_of_forall₂ h fun o ho o' hoo' => ?_).symm
  rw [construction?_eq, construction?_eq, hoo'.inRaise_eq, hoo'.node.isRaise_eq,
    hoo'.node.constructed?_eq]
  cases he : o.node.constructed? with
  | none => rfl
  | some e =>
    obtain ⟨hattribute, hfresh⟩ := havoids o ho e he
    simp only [Option.map_some, Option.bind_some, plainName?_relabel hattribute]
    cases hn : plainName? e with
    | none => rfl
    | some n =>
      have hne : n ≠ new := by
        rintro rfl
        exact hfresh (plainName?_eq_some_iff.1 hn)
      simp [declaredName_rebindTable ht hold hne]

end ExceptionRules

/-- The method that a statement of a class body defines. -/
def ClassDecl.methodOf? (c : ClassDecl) : Stmt → Option MethodDecl
  | .node span (.function isAsync name params body decorators returns) =>
    some ⟨c, .node span (.function isAsync name params body decorators returns), isAsync, name,
      params, body, decorators, returns⟩
  | _ => none

theorem ClassDecl.methods_eq (c : ClassDecl) : c.methods = c.body.filterMap c.methodOf? := by
  unfold methods
  congr 1
  funext s
  obtain ⟨span, form⟩ := s
  cases form <;> rfl

/-- What stands in a method stands in its class. -/
theorem ClassDecl.exists_mem_occurrences {c : ClassDecl} (hc : c ∈ c.unit.classes)
    {m : MethodDecl} (hm : m ∈ c.methods) {o : Occurrence} (ho : o ∈ m.occurrences) :
    ∃ o' ∈ c.occurrences, o'.node = o.node := by
  refine ⟨o.within [c.outStep], (methods_occurrences_subperm hc).subset ?_, rfl⟩
  exact List.mem_flatMap.2 ⟨m, hm, List.mem_map_of_mem ho⟩

namespace ExceptionRules

/-! ## The two classes -/

variable {old new : String}

/-- A class, and the same class in a file where one exception is imported under another local name.
The class says that name instead of the old one; its file and itself keep all else. -/
structure RenamesAlias (r : ExceptionRules) (old new : String) (c c' : ClassDecl) : Prop where
  mem_classes : c ∈ c.unit.classes
  mem_classes' : c' ∈ c'.unit.classes
  stmt : c'.stmt = c.stmt.relabel (aliasRenaming old new)
  /-- The rest of the file has the other import only. -/
  body : ∃ before after, c.unit.body = before ++ c.stmt :: after ∧
    c'.unit.body = before.map (Stmt.relabel (aliasRenaming old new).onlyImports) ++
      c'.stmt :: after.map (Stmt.relabel (aliasRenaming old new).onlyImports)
  /-- One import binds the old name, and brings in an exception from a known module. -/
  imported : ∃ before i after, c.unit.imports = before ++ i :: after ∧ r.BringsIn i ∧
    i.localName = old ∧ ∀ j ∈ before ++ after, j.localName ≠ old
  notAttribute : ∀ o ∈ c.occurrences, ∀ span value,
    o.node ≠ .expr (.node span (.attribute value old))
  /-- The class does not say the new name. -/
  fresh : ∀ o ∈ c.occurrences, ∀ e, o.node = .expr e → ¬ e.EndsIn new
  unbound : ∀ i ∈ c.unit.imports, i.localName ≠ new
  nonempty : new ≠ ""

namespace RenamesAlias

variable {r : ExceptionRules} {c c' : ClassDecl} (h : r.RenamesAlias old new c c')
include h

theorem imports_eq : c'.unit.imports = c.unit.imports.map (ImportedName.rebind old new) := by
  obtain ⟨before, after, hbody, hbody'⟩ := h.body
  refine SourceUnit.imports_of_relabel ?_
  have hrest (ss : List Stmt) : List.Forall₂
      (fun s s' => ∃ f, RenamesImports old new f ∧ s' = s.relabel f) ss
      (ss.map (Stmt.relabel (aliasRenaming old new).onlyImports)) := by
    rw [List.forall₂_map_right_iff, List.forall₂_same]
    exact fun s _ => ⟨(aliasRenaming old new).onlyImports, rfl, rfl⟩
  rw [hbody, hbody']
  exact List.rel_append (hrest before) (.cons ⟨_, rfl, h.stmt⟩ (hrest after))

theorem importedNames_eq :
    r.importedNames c'.unit = rebindTable old new (r.importedNames c.unit) :=
  importedNames_rebind r h.imports_eq h.nonempty h.unbound

theorem new_not_mem_keys : new ∉ (r.importedNames c.unit).keys := by
  rw [ExceptionRules.importedNames_eq, mem_keys_aliasTable]
  rintro ⟨i, hi, hlocal⟩
  exact h.unbound i (List.mem_filter.1 hi).1 hlocal

theorem old_mem_keys : old ∈ (r.importedNames c.unit).keys := by
  obtain ⟨before, i, after, himports, hbrings, rfl, -⟩ := h.imported
  rw [ExceptionRules.importedNames_eq, mem_keys_aliasTable]
  refine ⟨i, List.mem_filter.2 ⟨?_, ?_⟩, rfl⟩
  · rw [himports]
    exact List.mem_append_right _ List.mem_cons_self
  · rw [hbrings.1, hbrings.2]
    rfl

/-- Whatever is called or raised in the class is an expression of the class. -/
theorem avoids {o : Occurrence} (ho : o ∈ c.occurrences) : Avoids old new o.node := by
  intro e he
  obtain ⟨child, hchild, hnode⟩ := Node.child_of_constructed? he
  have hmem := Node.mem_occurrencesBy_of_mem_children _ ho hchild
  refine ⟨fun span value hattribute => ?_, h.fresh _ hmem e hnode⟩
  exact h.notAttribute _ hmem span value (hnode.trans (congrArg Node.expr hattribute))

theorem constructions_eq {os os' : List Occurrence}
    (hmirror : List.Forall₂ (Occurrence.Mirrors (Node.Relabels (· = aliasRenaming old new))) os os')
    (havoids : ∀ o ∈ os, Avoids old new o.node) :
    constructions (r.importedNames c'.unit) os' = constructions (r.importedNames c.unit) os := by
  rw [h.importedNames_eq]
  exact constructions_relabel h.new_not_mem_keys h.old_mem_keys hmirror havoids

theorem constructions_occurrences_eq :
    constructions (r.importedNames c'.unit) c'.occurrences =
      constructions (r.importedNames c.unit) c.occurrences := by
  refine h.constructions_eq ?_ fun o ho => h.avoids ho
  rw [ClassDecl.occurrences, ClassDecl.occurrences, h.stmt]
  exact (Node.isMirror_relabels _).occurrences _ (Node.relabels_stmt _ c.stmt) .nil

theorem classWeights_eq : r.classWeights c' = r.classWeights c := by
  rw [classWeights, classWeights, weigh_eq_constructions, weigh_eq_constructions,
    h.constructions_occurrences_eq]

theorem infer_eq : r.infer c' = r.infer c := by
  have hhasKey (n : String) : (r.originals c'.unit).hasKey n = (r.originals c.unit).hasKey n := by
    rw [originals_rebind r h.imports_eq h.nonempty h.unbound]
    simp [Ordered.hasKey, List.any_map, Function.comp_def]
  have hhead : (r.originals c'.unit).head?.map
        (fun e => (⟨e.2.name, some e.2.qualifiedModule⟩ : ExceptionHint)) =
      (r.originals c.unit).head?.map fun e => ⟨e.2.name, some e.2.qualifiedModule⟩ := by
    rw [originals_rebind r h.imports_eq h.nonempty h.unbound, List.head?_map, Option.map_map]
    simp [Function.comp_def]
  simp only [infer, originals_eq, h.classWeights_eq, hhasKey, hhead,
    sourceOf_rebind h.imports_eq]

theorem inferred_eq : r.inferred c' = r.inferred c := by
  rw [inferred, inferred, testImports_rebind r h.imports_eq, testConstructions_eq,
    testConstructions_eq, h.constructions_occurrences_eq, h.infer_eq]

/-- The methods of the two classes go in pairs, each with its relabelled definition. -/
theorem forall₂_methods : List.Forall₂
    (fun m m' => m'.owner = c' ∧ m'.name = m.name ∧
      m'.stmt = m.stmt.relabel (aliasRenaming old new) ∧
      m'.body = m.body.map (Stmt.relabel (aliasRenaming old new))) c.methods c'.methods := by
  obtain ⟨-, -, span, hstmt⟩ := ClassDecl.exists_stmt_of_mem_classes h.mem_classes
  obtain ⟨-, -, span', hstmt'⟩ := ClassDecl.exists_stmt_of_mem_classes h.mem_classes'
  have hbody : c'.body = c.body.map (Stmt.relabel (aliasRenaming old new)) := by
    have hrelabel := h.stmt
    rw [hstmt, hstmt'] at hrelabel
    simp only [Stmt.relabel, StmtForm.relabel, relabelStmts_eq] at hrelabel
    injection hrelabel with _ hform
    injection hform
  rw [ClassDecl.methods_eq, ClassDecl.methods_eq, hbody, List.filterMap_eq_flatMap_toList,
    List.filterMap_eq_flatMap_toList, List.flatMap_map]
  refine forall₂_flatMap (List.forall₂_same.2 fun s _ => rfl) fun s hs s' heq => ?_
  subst heq
  clear hs
  obtain ⟨span, form⟩ := s
  cases form
  case function isAsync name params body decorators returns =>
    refine .cons ⟨rfl, rfl, rfl, ?_⟩ .nil
    exact relabelStmts_eq _ body
  all_goals exact .nil

/-- The methods of the two classes construct the same. -/
theorem constructions_methods_eq : List.Forall₂
    (fun m m' => m'.name = m.name ∧
      constructions (r.importedNames m'.owner.unit) m'.occurrences =
        constructions (r.importedNames m.owner.unit) m.occurrences) c.methods c'.methods := by
  have hmethods := (List.forall₂_and_left _ _).2
    ⟨fun m (hm : m ∈ c.methods) => hm, h.forall₂_methods⟩
  refine hmethods.imp fun m m' hmm => ?_
  obtain ⟨hm, howner, hname, hstmt, hbody⟩ := hmm
  refine ⟨hname, ?_⟩
  have htrail : List.Forall₂ (Step.Mirrors (Node.Relabels (· = aliasRenaming old new)))
      [m.outStep] [m'.outStep] := by
    refine .cons ⟨rfl, ?_⟩ .nil
    rw [MethodDecl.outStep, MethodDecl.outStep, hstmt]
    exact Node.relabels_stmt _ m.stmt
  have hmirror := Node.bodyOccurrences_relabel htrail m.body
  rw [← hbody] at hmirror
  rw [howner, ClassDecl.owner_of_mem_methods hm]
  refine h.constructions_eq hmirror fun o ho => ?_
  obtain ⟨o', ho', hnode⟩ := ClassDecl.exists_mem_occurrences h.mem_classes hm ho
  exact hnode ▸ h.avoids ho'

end RenamesAlias

/-- If an import binds another local name and the class says that name instead, then the weights of
the class stay as they are, in their order, and so do the exceptions of every method and the
representative exception with its module.  Rules that break off on one class break off on the other
one, with the same fault. -/
theorem exceptions_eq_of_renamesAlias {r : ExceptionRules} {c c' : ClassDecl}
    (h : r.RenamesAlias old new c c') :
    r.classWeights c' = r.classWeights c ∧
    List.Forall₂ (fun m m' => m'.name = m.name ∧
      r.methodExceptions m' = r.methodExceptions m ∧
      r.testConstructions m'.owner.unit m'.occurrences =
        r.testConstructions m.owner.unit m.occurrences) c.methods c'.methods ∧
    r.infer c' = r.infer c ∧ r.inferred c' = r.inferred c ∧
    r.testImports c'.unit = r.testImports c.unit ∧
    r.testConstructions c'.unit c'.occurrences = r.testConstructions c.unit c.occurrences := by
  refine ⟨h.classWeights_eq, ?_, h.infer_eq, h.inferred_eq, testImports_rebind r h.imports_eq, ?_⟩
  · refine h.constructions_methods_eq.imp fun m m' hm => ⟨hm.1, ?_, ?_⟩
    · rw [methodExceptions, methodExceptions, weigh_eq_constructions, weigh_eq_constructions, hm.2]
    · rw [testConstructions_eq, testConstructions_eq, hm.2]
  · rw [testConstructions_eq, testConstructions_eq, h.constructions_occurrences_eq]

/-- The expression `NAME()`. -/
def callOf (name : String) : Expr :=
  .node default (.call (.node default (.name name)) [] [])

/-- The method `def close(): raise NAME()`. -/
def closeBy (name : String) : Stmt :=
  .node default (.function false "close" (.mk [] [] none [] [] none [])
    [.node default (.raises (some (callOf name)) none)] [] none)

/-- A file that imports `LateError` under a local name, and has a class with this method. -/
def closingFile (name : String) : SourceUnit where
  path := ⟨"/", ["orders.py"]⟩
  text := "from shop.exceptions import LateError"
  body := [.node default (.importFrom (some "shop.exceptions")
    [⟨default, "LateError", some name⟩] 0),
    .node default (.classDef "Orders" [] [] [closeBy name] [])]

/-- The class of the file. -/
def closingClass (name : String) : ClassDecl :=
  ⟨closingFile name, 1, .node default (.classDef "Orders" [] [] [closeBy name] []), "Orders", [],
    [], [closeBy name], []⟩

/-- A construct that is no attribute and does not end in the name `Tardy`. -/
def sparesTardy : Node → Bool
  | .expr (.node _ (.attribute _ _)) => false
  | .expr e => plainName? e != some "Tardy"
  | _ => true

/-- The class raises `LateError` as `Late` in one file and as `Tardy` in the other. -/
theorem exceptions_eq_of_renamesAlias_late :
    lateRules.RenamesAlias "Late" "Tardy" (closingClass "Late") (closingClass "Tardy") ∧
    lateRules.classWeights (closingClass "Late") = [("LateError", 2)] ∧
    lateRules.classWeights (closingClass "Tardy") = [("LateError", 2)] ∧
    lateRules.inferred (closingClass "Tardy") = lateRules.inferred (closingClass "Late") := by
  have himports : (closingFile "Late").imports =
      [⟨"shop.exceptions", 0, "LateError", some "Late"⟩] := by decide +kernel
  have hspares : (closingClass "Late").occurrences.all (sparesTardy ·.node) = true := by
    decide +kernel
  have hrenames :
      lateRules.RenamesAlias "Late" "Tardy" (closingClass "Late") (closingClass "Tardy") :=
    { mem_classes := List.mem_singleton_self _
      mem_classes' := List.mem_singleton_self _
      stmt := rfl
      body := ⟨[_], [], rfl, rfl⟩
      imported := ⟨[], _, [], himports, ⟨by decide +kernel, by decide +kernel⟩, rfl, by simp⟩
      notAttribute := by
        intro o ho span value he
        have ho := List.all_eq_true.1 hspares o ho
        rw [he] at ho
        cases ho
      fresh := by
        intro o ho e he hends
        have ho := List.all_eq_true.1 hspares o ho
        rw [he] at ho
        unfold sparesTardy at ho
        grind [plainName?_eq_some_iff.2 hends]
      unbound := by
        intro i hi
        rw [show i = _ from List.mem_singleton.1 (himports ▸ hi)]
        decide +kernel
      nonempty := by decide }
  obtain ⟨hweights, -, -, hinferred, -⟩ := exceptions_eq_of_renamesAlias hrenames
  have hlate : lateRules.classWeights (closingClass "Late") = [("LateError", 2)] := by
    decide +kernel
  exact ⟨hrenames, hlate, hweights.trans hlate, hinferred⟩

end ExceptionRules

end RouteLens
