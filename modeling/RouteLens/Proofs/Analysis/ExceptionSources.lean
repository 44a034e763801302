import RouteLens.Proofs.Analysis.ExceptionChoice

/-!
# Modules of the representative exception

The representative exception comes with the module that it is imported from.  A file can import one
exception more than once, from several modules or under several local names.  If a name of the
priority list or a construction in the class has settled the choice, then the first import of the
exception gives the module (`FirstImport`).  If only the imports were left to choose from, it is
the last import with that name in the table of local names (`LastListed`), which can be another one.
A further construction of the chosen exception leaves the choice as it is, and moves the module to
that of the first import.
-/

namespace RouteLens

namespace ExceptionRules

/-! ## First and last imports -/

/-- The first import of a name in a file, in document order. -/
def FirstImport (u : SourceUnit) (name : String) (i : ImportedName) : Prop :=
  ∃ before after, u.imports = before ++ i :: after ∧ i.name = name ∧
    ∀ j ∈ before, j.name ≠ name

theorem exists_firstImport {u : SourceUnit} {name : String}
    (h : ∃ j ∈ u.imports, j.name = name) :
    ∃ i, FirstImport u name i ∧ sourceOf u name = some i.qualifiedModule := by
  obtain ⟨j, hj, hname⟩ := h
  cases hfind : u.imports.find? (·.name == name) with
  | none =>
    have hne := List.find?_eq_none.1 hfind j hj
    simp [hname] at hne
  | some i =>
    obtain ⟨hi, before, after, hsplit, hbefore⟩ := List.find?_eq_some_iff_append.1 hfind
    refine ⟨i, ⟨before, after, hsplit, by simpa using hi, fun j hj => ?_⟩, ?_⟩
    · simpa using hbefore j hj
    · rw [sourceOf, hfind]
      rfl

variable (r : ExceptionRules)

/-- The last import with a name in the table of local names. -/
def LastListed (u : SourceUnit) (name : String) (i : ImportedName) : Prop :=
  ∃ before k after, r.importedNames u = before ++ (k, i) :: after ∧ i.name = name ∧
    ∀ e ∈ after, e.2.name ≠ name

variable {r}

theorem lastListed_iff {u : SourceUnit} {name : String} {i : ImportedName} :
    r.LastListed u name i ↔
      Ordered.get? ((r.importedNames u).map fun e => (e.2.name, e.2)).reverse name = some i := by
  rw [Ordered.get?, ← List.map_reverse, List.find?_map, Option.map_map, Option.map_eq_some_iff]
  constructor
  · rintro ⟨before, k, after, hsplit, hname, hafter⟩
    refine ⟨(k, i), List.find?_eq_some_iff_append.2 ⟨by simpa using hname, after.reverse,
      before.reverse, by simp [hsplit], fun e he => ?_⟩, rfl⟩
    simpa using hafter e (List.mem_reverse.1 he)
  · rintro ⟨⟨k, i⟩, hfind, rfl⟩
    obtain ⟨hname, after, before, hsplit, hafter⟩ := List.find?_eq_some_iff_append.1 hfind
    refine ⟨before.reverse, k, after.reverse, ?_, by simpa using hname, fun e he => ?_⟩
    · simpa using congrArg List.reverse hsplit
    · simpa using hafter e (List.mem_reverse.1 he)

theorem LastListed.unique {u : SourceUnit} {name : String} {i j : ImportedName}
    (hi : r.LastListed u name i) (hj : r.LastListed u name j) : i = j :=
  Option.some.inj ((lastListed_iff.1 hi).symm.trans (lastListed_iff.1 hj))

/-! ## The module by rule -/

/-- More than imports speak for an exception: a name of the priority list has a signal, or the
class constructs something. -/
def SettledBeforeImports (r : ExceptionRules) (c : ClassDecl) : Prop :=
  (∃ n ∈ r.priority.texts, r.Signals c n) ∨ (r.classWeights c).keys ≠ []

variable {c : ClassDecl} {x : ExceptionHint}

theorem source_of_settled (h : r.SettledBeforeImports c) (hx : r.infer c = some x) :
    x.source = sourceOf c.unit x.name := by
  rcases r.exists_first_signal_or c with ⟨before, n, after, hlist, hn, hbefore⟩ | hnone
  · rw [infer_of_priority hlist hn hbefore] at hx
    cases hx
    rfl
  · cases hheaviest : heaviest? (r.classWeights c) with
    | some e =>
      rw [infer_of_heaviest hnone hheaviest] at hx
      cases hx
      rfl
    | none =>
      rcases h with ⟨n, hn, hsignal⟩ | hkeys
      · exact absurd hsignal (hnone n hn)
      · rw [heaviest?_eq_none_iff.1 hheaviest] at hkeys
        exact absurd rfl hkeys

theorem source_of_not_settled (h : ¬ r.SettledBeforeImports c) (hx : r.infer c = some x) :
    ∃ i, r.LastListed c.unit x.name i ∧ x.source = some i.qualifiedModule := by
  obtain ⟨hnone, hkeys⟩ : (∀ n ∈ r.priority.texts, ¬ r.Signals c n) ∧
      (r.classWeights c).keys = [] := by
    simpa [SettledBeforeImports] using h
  have hempty := eq_nil_of_keys_eq_nil hkeys
  cases htable : r.importedNames c.unit with
  | nil =>
    rw [infer_of_imported hnone hempty, originals_eq_nil_iff.2 htable] at hx
    cases hx
  | cons e rest =>
    obtain ⟨i, hi, hget⟩ := infer_of_importedNames_cons hnone hempty htable
    obtain rfl := Option.some.inj (hi.symm.trans hx)
    exact ⟨i, lastListed_iff.2 hget, rfl⟩

/-- The module is that of the first import unless the imports alone settle the choice, and another
module is that of the last one. -/
theorem source_eq_iff {i : ImportedName} (hx : r.infer c = some x)
    (hi : sourceOf c.unit x.name = some i.qualifiedModule) :
    x.source = some i.qualifiedModule ↔ r.SettledBeforeImports c ∨
      ∃ l, r.LastListed c.unit x.name l ∧ l.qualifiedModule = i.qualifiedModule := by
  by_cases hsettled : r.SettledBeforeImports c
  · simp [hsettled, source_of_settled hsettled hx, hi]
  · obtain ⟨l, hl, hsource⟩ := source_of_not_settled hsettled hx
    rw [hsource, Option.some.injEq]
    constructor
    · intro heq
      exact .inr ⟨l, hl, heq⟩
    · rintro (h | ⟨l', hl', heq⟩)
      · exact absurd h hsettled
      · rw [hl.unique hl', heq]

/-! ## Rules that break off -/

theorem testConstructions_eq_ok_iff {u : SourceUnit} {os : List Occurrence} :
    r.testConstructions u os = .ok () ↔
      ∀ e ∈ constructions (r.importedNames u) os, ∃ b, r.testName e.1 = .ok b := by
  rw [testConstructions_eq, List.forM_eq_forM]
  induction constructions (r.importedNames u) os with
  | nil => simp
  | cons e es ih =>
    rw [List.forM_cons, List.forall_mem_cons, ← ih]
    cases r.testName e.1 <;> simp

theorem testName_of_isExceptionName {name : String} (h : r.isExceptionName name = true) :
    r.testName name = .ok true := by
  rw [testName, h, Bool.or_true, Listing.settle_true]
  rfl

theorem inferred_eq_ok_iff {hint : Option ExceptionHint} : r.inferred c = .ok hint ↔
    r.testImports c.unit = .ok () ∧ r.testConstructions c.unit c.occurrences = .ok () ∧
      r.infer c = hint ∧
      r.priority.settle (hint.any fun h => r.priority.texts.contains h.name) = .ok () := by
  simp only [inferred, bind_eq_ok_iff, pure_eq_ok, Except.ok.injEq]
  constructor
  · rintro ⟨_, himports, _, hconstructions, _, hsettle, rfl⟩
    exact ⟨himports, hconstructions, rfl, hsettle⟩
  · rintro ⟨himports, hconstructions, rfl, hsettle⟩
    exact ⟨_, himports, _, hconstructions, _, hsettle, rfl⟩

/-! ## A further construction -/

/-- The second class constructs what the first one does, wherever that stands, and an exception once
more.  The files import the same. -/
structure AddsConstruction (r : ExceptionRules) (name : String) (c c' : ClassDecl) : Prop where
  imports : c'.unit.imports = c.unit.imports
  constructions : ∃ w, (constructions (r.importedNames c'.unit) c'.occurrences).Perm
    ((name, w) :: ExceptionRules.constructions (r.importedNames c.unit) c.occurrences)

theorem weight_weigh_eq_sum (r : ExceptionRules) (aliases : Ordered ImportedName)
    (os : List Occurrence) (exc : String) : (r.weigh aliases os).weight exc =
      ((constructions aliases os).map fun e =>
        if r.isExceptionName e.1 = true ∧ e.1 = exc then e.2 else 0).sum := by
  rw [weigh_eq_constructions, ← List.filterMap_eq_filter, Ordered.weight_tally]
  congr 2
  funext e
  by_cases he : r.isExceptionName e.1 = true <;> simp [Ordered.addition, Option.guard, he]

theorem isExceptionName_of_mem_keys {aliases : Ordered ImportedName} {os : List Occurrence}
    {name : String} (h : name ∈ (r.weigh aliases os).keys) : r.isExceptionName name = true := by
  rw [weigh_eq_constructions, Ordered.mem_keys_tally] at h
  obtain ⟨e, he, rfl⟩ := List.mem_map.1 h
  exact (List.mem_filter.1 he).2

theorem Signals.isExceptionName {name : String} (h : r.Signals c name) :
    r.isExceptionName name = true := by
  rcases h with ⟨e, he, rfl⟩ | h
  · rw [importedNames_eq] at he
    have hbrings := (List.mem_filter.1 (mem_aliasTable he).1).2
    exact (Bool.and_eq_true_iff.1 hbrings).2
  · exact isExceptionName_of_mem_keys h

theorem mem_keys_classWeights_iff_pos {name : String} :
    name ∈ (r.classWeights c).keys ↔ 0 < (r.classWeights c).weight name :=
  r.mem_keys_weigh_iff_pos

namespace AddsConstruction

variable {name : String} {c' : ClassDecl} (h : r.AddsConstruction name c c')
include h

theorem importedNames_eq : r.importedNames c'.unit = r.importedNames c.unit := by
  rw [ExceptionRules.importedNames_eq, ExceptionRules.importedNames_eq, h.imports]

theorem sourceOf_eq (n : String) : sourceOf c'.unit n = sourceOf c.unit n := by
  rw [sourceOf, sourceOf, h.imports]

theorem weight_eq (hname : r.isExceptionName name = true) : ∃ w, 0 < w ∧
    ∀ m, (r.classWeights c').weight m =
      (r.classWeights c).weight m + if m = name then w else 0 := by
  obtain ⟨w, hperm⟩ := h.constructions
  refine ⟨w, ?_, fun m => ?_⟩
  · obtain ⟨e, he, heq⟩ := List.mem_map.1 (hperm.mem_iff.2 List.mem_cons_self)
    obtain ⟨o, -, ho⟩ := List.mem_filterMap.1 he
    cases heq
    exact pos_of_construction? ho
  · rw [classWeights, classWeights, weight_weigh_eq_sum, weight_weigh_eq_sum,
      (hperm.map _).sum_eq, List.map_cons, List.sum_cons, Nat.add_comm]
    by_cases hm : m = name
    · simp [hm, hname]
    · simp [hm, Ne.symm hm]

variable (hsignals : r.Signals c name)
include hsignals

theorem signals_iff (n : String) : r.Signals c' n ↔ r.Signals c n := by
  obtain ⟨w, hw, hweight⟩ := h.weight_eq hsignals.isExceptionName
  by_cases hn : n = name
  · subst hn
    refine iff_of_true (.inr ?_) hsignals
    rw [mem_keys_classWeights_iff_pos, hweight, if_pos rfl]
    omega
  · rw [Signals, Signals, h.importedNames_eq, mem_keys_classWeights_iff_pos,
      mem_keys_classWeights_iff_pos, hweight, if_neg hn, Nat.add_zero]

theorem settled : r.SettledBeforeImports c' := by
  obtain ⟨w, hw, hweight⟩ := h.weight_eq hsignals.isExceptionName
  have hmem : name ∈ (r.classWeights c').keys := by
    rw [mem_keys_classWeights_iff_pos, hweight, if_pos rfl]
    omega
  exact .inr (List.ne_nil_of_mem hmem)

/-- An exception that had the greatest weight is now alone in that. -/
theorem chooses_of_forall_le (hnone : ∀ m ∈ r.priority.texts, ¬ r.Signals c m)
    (hmax : ∀ m, (r.classWeights c).weight m ≤ (r.classWeights c).weight name) :
    r.Chooses c' name := by
  obtain ⟨w, hw, hweight⟩ := h.weight_eq hsignals.isExceptionName
  have hself : (r.classWeights c').weight name = (r.classWeights c).weight name + w := by
    rw [hweight, if_pos rfl]
  have hother {m : String} (hm : m ≠ name) :
      (r.classWeights c').weight m < (r.classWeights c').weight name := by
    have hle := hmax m
    rw [hself, hweight, if_neg hm]
    omega
  refine .heaviest (fun m hm hm' => hnone m hm ((h.signals_iff hsignals m).1 hm')) ?_
    (fun m => ?_) fun m _ hm heq => absurd heq (hother hm).ne
  · rw [mem_keys_classWeights_iff_pos, hself]
    omega
  · by_cases hm : m = name
    · rw [hm]
    · exact (hother hm).le

/-- The choice stays. -/
theorem chooses (hchooses : r.Chooses c name) : r.Chooses c' name := by
  cases hchooses with
  | priority hlist hn hbefore =>
    refine .priority hlist ((h.signals_iff hsignals _).2 hn) fun m hm hm' => ?_
    exact hbefore m hm ((h.signals_iff hsignals m).1 hm')
  | heaviest hnone hn hmax => exact h.chooses_of_forall_le hsignals hnone hmax
  | imported hnone hempty htable =>
    refine h.chooses_of_forall_le hsignals hnone fun m => ?_
    have hzero : ¬ 0 < (r.classWeights c).weight m := by
      rw [← mem_keys_classWeights_iff_pos, hempty]
      exact List.not_mem_nil
    omega

theorem testConstructions_eq_ok
    (hok : r.testConstructions c.unit c.occurrences = .ok ()) :
    r.testConstructions c'.unit c'.occurrences = .ok () := by
  obtain ⟨w, hperm⟩ := h.constructions
  rw [testConstructions_eq_ok_iff] at hok ⊢
  intro e he
  rcases List.mem_cons.1 (hperm.mem_iff.1 he) with rfl | he
  · exact ⟨true, testName_of_isExceptionName hsignals.isExceptionName⟩
  · exact hok e he

end AddsConstruction

/-- Under any rules, if the representative exception is a name that the file imports, then it comes
with the module of the first import of that name, unless imports alone speak for any exception and
the last import with this name in the table of local names gives another module.  In that case the
module is the latter.  A class that constructs the chosen exception once more gets the same name,
with the module of the first import. -/
theorem source_of_inferred {r : ExceptionRules} {c : ClassDecl} {x : ExceptionHint}
    (h : r.inferred c = .ok (some x)) (himported : ∃ j ∈ c.unit.imports, j.name = x.name) :
    ∃ i, FirstImport c.unit x.name i ∧
      (x.source = some i.qualifiedModule ↔ r.SettledBeforeImports c ∨
        ∃ l, r.LastListed c.unit x.name l ∧ l.qualifiedModule = i.qualifiedModule) ∧
      (¬ r.SettledBeforeImports c →
        ∃ l, r.LastListed c.unit x.name l ∧ x.source = some l.qualifiedModule) ∧
      ∀ c', r.AddsConstruction x.name c c' →
        r.SettledBeforeImports c' ∧
          r.inferred c' = .ok (some ⟨x.name, some i.qualifiedModule⟩) := by
  obtain ⟨i, hi, hsource⟩ := exists_firstImport himported
  obtain ⟨htestImports, htestConstructions, hinfer, hsettle⟩ := inferred_eq_ok_iff.1 h
  refine ⟨i, hi, source_eq_iff hinfer hsource, fun hnot => source_of_not_settled hnot hinfer,
    fun c' hadds => ?_⟩
  have hchooses := infer_eq_some_iff_chooses.1 ⟨x, hinfer, rfl⟩
  have hsignals := hchooses.signals
  have hsettled : r.SettledBeforeImports c' := hadds.settled hsignals
  obtain ⟨x', hinfer', hname⟩ := infer_eq_some_iff_chooses.2 (hadds.chooses hsignals hchooses)
  have hx' : x' = ⟨x.name, some i.qualifiedModule⟩ := by
    have hsource' := source_of_settled hsettled hinfer'
    rw [hname, hadds.sourceOf_eq, hsource] at hsource'
    rw [← hname, ← hsource']
  refine ⟨hsettled, inferred_eq_ok_iff.2 ⟨?_, ?_, hx' ▸ hinfer', hsettle⟩⟩
  · rw [← htestImports, testImports, testImports, hadds.imports]
  · exact hadds.testConstructions_eq_ok hsignals htestConstructions

/-- The file `from a.exceptions import GoneError`, `from b.exceptions import GoneError as G` with a
class. -/
def goneFile (statement : StmtForm) : SourceUnit where
  path := ⟨"/", ["orders.py"]⟩
  text := "from a.exceptions import GoneError"
  body := [
    .node default (.importFrom (some "a.exceptions") [⟨default, "GoneError", none⟩] 0),
    .node default (.importFrom (some "b.exceptions") [⟨default, "GoneError", some "G"⟩] 0),
    .node default (.classDef "C" [] [] [.node default statement] [])]

/-- The class of the file, whose body is one statement. -/
def goneClass (statement : StmtForm) : ClassDecl :=
  ⟨goneFile statement, 2, .node default (.classDef "C" [] [] [.node default statement] []), "C",
    [], [], [.node default statement], []⟩

/-- The statement `raise GoneError`. -/
def raiseGone : StmtForm :=
  .raises (some (.node default (.name "GoneError"))) none

theorem imports_goneFile (statement : StmtForm) (h : statement = .pass ∨ statement = raiseGone) :
    (goneFile statement).imports =
      [⟨"a.exceptions", 0, "GoneError", none⟩, ⟨"b.exceptions", 0, "GoneError", some "G"⟩] := by
  rcases h with rfl | rfl <;> decide +kernel

theorem addsConstruction_gone {r : ExceptionRules}
    (hr : ExceptionRules.ofConfig Config.default = .ok r) :
    r.AddsConstruction "GoneError" (goneClass .pass) (goneClass raiseGone) := by
  cases hr
  refine ⟨?_, 2, .of_eq (by decide +kernel)⟩
  exact (imports_goneFile _ (.inr rfl)).trans (imports_goneFile _ (.inl rfl)).symm

/-- With the default rules, a class that does nothing gets the module of the second import of
`GoneError`, and a class that raises it gets that of the first one. -/
theorem source_ne_first_import :
    ∃ r, ExceptionRules.ofConfig Config.default = .ok r ∧
      r.inferred (goneClass .pass) = .ok (some ⟨"GoneError", some "b.exceptions"⟩) ∧
      FirstImport (goneFile .pass) "GoneError" ⟨"a.exceptions", 0, "GoneError", none⟩ ∧
      r.AddsConstruction "GoneError" (goneClass .pass) (goneClass raiseGone) ∧
      r.inferred (goneClass raiseGone) = .ok (some ⟨"GoneError", some "a.exceptions"⟩) := by
  refine ⟨_, rfl, by decide +kernel, ⟨[], _, imports_goneFile _ (.inl rfl), rfl, by simp⟩,
    addsConstruction_gone rfl, by decide +kernel⟩

/-- The class that does nothing, and the class that raises the exception once. -/
theorem source_of_inferred_gone :
    ∃ r x i, ExceptionRules.ofConfig Config.default = .ok r ∧
      r.inferred (goneClass .pass) = .ok (some x) ∧
      (∃ j ∈ (goneFile .pass).imports, j.name = x.name) ∧
      FirstImport (goneFile .pass) x.name i ∧
      (x.source = some i.qualifiedModule ↔ r.SettledBeforeImports (goneClass .pass) ∨
        ∃ l, r.LastListed (goneFile .pass) x.name l ∧ l.qualifiedModule = i.qualifiedModule) ∧
      r.inferred (goneClass raiseGone) = .ok (some ⟨x.name, some i.qualifiedModule⟩) := by
  obtain ⟨r, hr, h⟩ : ∃ r, ExceptionRules.ofConfig Config.default = .ok r ∧
      r.inferred (goneClass .pass) = .ok (some ⟨"GoneError", some "b.exceptions"⟩) :=
    ⟨_, rfl, by decide +kernel⟩
  have himported : ∃ j ∈ (goneFile .pass).imports, j.name = "GoneError" := by
    rw [imports_goneFile _ (.inl rfl)]
    exact ⟨_, List.mem_cons_self, rfl⟩
  obtain ⟨i, hi, hiff, -, hadds⟩ := source_of_inferred h himported
  exact ⟨r, _, i, hr, h, himported, hi, hiff, (hadds _ (addsConstruction_gone hr)).2⟩

end ExceptionRules

end RouteLens
