import RouteLens.Analysis.LoopFetches
import RouteLens.Analysis.Method

/-!
# Rules that break off nowhere

A rule of names has a fault only where its list has a member that is no text.  Without such members
every test of a name has a result, and the analyses that test names are what they find.
-/

namespace RouteLens

namespace ExceptionRules

/-- Every member of the lists is a text. -/
structure Whole (r : ExceptionRules) : Prop where
  modules : r.modules.broken = none
  suffixes : r.suffixes.broken = none
  priority : r.priority.broken = none

instance (r : ExceptionRules) : Decidable r.Whole :=
  decidable_of_iff (r.modules.broken = none ∧ r.suffixes.broken = none ∧ r.priority.broken = none)
    ⟨fun ⟨hm, hs, hp⟩ => ⟨hm, hs, hp⟩, fun ⟨hm, hs, hp⟩ => ⟨hm, hs, hp⟩⟩

variable {r : ExceptionRules} (h : r.Whole)
include h

theorem testName_of_whole (name : String) : r.testName name = .ok (r.isExceptionName name) := by
  rw [testName, Listing.settle_of_whole h.suffixes]
  rfl

theorem testModule_of_whole (module : String) :
    r.testModule module = .ok (r.isKnownModule module) := by
  rw [testModule, Listing.settle_of_whole h.modules]
  rfl

theorem testImports_of_whole (u : SourceUnit) : r.testImports u = .ok () := by
  unfold testImports
  induction u.imports with
  | nil => rfl
  | cons i is ih =>
    rw [List.forM_eq_forM, List.forM_cons, testModule_of_whole h, testName_of_whole h]
    cases r.isKnownModule i.module <;> exact ih

theorem testConstructions_of_whole (u : SourceUnit) (os : List Occurrence) :
    r.testConstructions u os = .ok () := by
  unfold testConstructions
  induction os.filterMap construction? with
  | nil => rfl
  | cons e es ih =>
    rw [List.forM_eq_forM, List.forM_cons, testName_of_whole h]
    exact ih

theorem inferred_of_whole (c : ClassDecl) : r.inferred c = .ok (r.infer c) := by
  rw [inferred, testImports_of_whole h, testConstructions_of_whole h]
  simp only [ok_bind, Listing.settle_of_whole h.priority, pure_eq_ok]

end ExceptionRules

/-- With whole rules only the printing of its types and decorators is left to fail. -/
theorem MethodDecl.gatherFacts_of_whole {r : ExceptionRules} (h : r.Whole) (m : MethodDecl)
    (ps : Patterns) :
    m.gatherFacts r ps = (do
      Expr.printAll m.signatureTypes
      Expr.printAll m.decoratorExprs
      return m.facts r ps) := by
  rw [gatherFacts, r.testImports_of_whole h, r.testConstructions_of_whole h]
  rfl

theorem MethodDecl.findLoopFetch_of_whole {t : FetchNames} (h : t.broken = none)
    (m : MethodDecl) : m.findLoopFetch t = .ok (m.loopFetch? t) := by
  unfold findLoopFetch
  cases m.loopCalls.head? with
  | none => rfl
  | some c =>
    simp only [FetchNames.test, h]
    rfl

end RouteLens
