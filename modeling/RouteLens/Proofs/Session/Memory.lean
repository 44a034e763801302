import Mathlib.Logic.Function.Basic
import RouteLens.Proofs.Project.Reading
import RouteLens.Session

/-!
# What a session keeps

A session is seen through two views: its context (rules, disk, clock), and its memory, which gives
for every key what is kept under it.  Notes and the order of the kept lists are left out.

Each look-up of a session has one equation through these views: `perform_findClass`,
`perform_findDeclarations` and `perform_classLimit` say what it answers and what the memory becomes.
Later proofs use these equations and never unfold a look-up.
-/

namespace RouteLens

variable {edition : Nat} [CharacterNames edition]

namespace Session

variable {α β : Type}

/-! ## Performing actions -/

/-- Performs an action: its result, and the session after it. -/
def perform (a : Action α) (s : Session) : Except Fault α × Session :=
  a.run.run s

@[simp] theorem perform_pure (a : α) (s : Session) : perform (pure a) s = (.ok a, s) := rfl

@[simp] theorem perform_get (s : Session) : perform get s = (.ok s, s) := rfl

@[simp] theorem perform_set (s t : Session) : perform (set t) s = (.ok ⟨⟩, t) := rfl

@[simp] theorem perform_modify (f : Session → Session) (s : Session) :
    perform (modify f) s = (.ok ⟨⟩, f s) := rfl

@[simp] theorem perform_throw (f : Fault) (s : Session) :
    perform (throw f : Action α) s = (.error f, s) := rfl

@[simp] theorem perform_lift (e : Except Fault α) (s : Session) :
    perform (liftM e : Action α) s = (e, s) := by
  cases e <;> rfl

theorem perform_bind (a : Action α) (f : α → Action β) (s : Session) :
    perform (a >>= f) s =
      match perform a s with
      | (.ok x, t) => perform (f x) t
      | (.error e, t) => (.error e, t) := by
  simp only [perform, ExceptT.run_bind, StateT.run_bind]
  change (match a.run.run s with | (x, t) => _) = _
  rcases a.run.run s with ⟨x | x, t⟩ <;> rfl

@[simp] theorem perform_map (f : α → β) (a : Action α) (s : Session) :
    perform (f <$> a) s = ((perform a s).1.map f, (perform a s).2) := by
  rw [map_eq_pure_bind, perform_bind]
  rcases perform a s with ⟨x | x, t⟩ <;> rfl

theorem perform_bind_ok {a : Action α} {f : α → Action β} {s t : Session} {x : α}
    (h : perform a s = (.ok x, t)) : perform (a >>= f) s = perform (f x) t := by
  rw [perform_bind, h]

theorem perform_bind_error {a : Action α} {f : α → Action β} {s t : Session} {e : Fault}
    (h : perform a s = (.error e, t)) : perform (a >>= f) s = (.error e, t) := by
  rw [perform_bind, h]

/-! ## Context and memory -/

/-- What a session works with, apart from what it keeps. -/
structure Context where
  rules : SessionRules
  directory : Path
  disk : Disk
  languages : Languages
  now : Binary64
  ttl : Binary64

/-- What a session keeps, by key. -/
structure Memory where
  project : ProjectKey → Option Project
  place : ClassKey → Option Path
  result : ResultKey → Option (Binary64 × Option MethodFacts)

/-- The context of a session. -/
def context (s : Session) : Context :=
  ⟨s.rules, s.directory, s.disk, s.languages, s.now, s.results.ttl⟩

/-- The memory of a session. -/
def memory (s : Session) : Memory where
  project key := s.projects.lookup key
  place key := s.places.lookup key
  result key := (s.results.entryOf? key).map fun e => (e.time, e.value)

namespace Memory

/-- The memory with a project in place. -/
def keep (m : Memory) (key : ProjectKey) (p : Project) : Memory :=
  { m with project := Function.update m.project key (some p) }

/-- The memory with a class put in its place, or in none. -/
def setPlace (m : Memory) (key : ClassKey) (path : Option Path) : Memory :=
  { m with place := Function.update m.place key path }

/-- The memory with a result in place. -/
def setResult (m : Memory) (key : ResultKey) (e : Binary64 × Option MethodFacts) : Memory :=
  { m with result := Function.update m.result key (some e) }

variable {m : Memory} {key : ProjectKey} {p q : Project}

@[simp] theorem project_keep : (m.keep key p).project key = some p := by
  simp [keep]

theorem project_keep_of_ne {k : ProjectKey} (h : k ≠ key) :
    (m.keep key p).project k = m.project k :=
  Function.update_of_ne h _ _

@[simp] theorem keep_keep : (m.keep key p).keep key q = m.keep key q := by
  simp [keep]

theorem keep_eq_self (h : m.project key = some p) : m.keep key p = m := by
  simp [keep, ← h]

theorem setPlace_eq_self {key : ClassKey} {path : Option Path} (h : m.place key = path) :
    m.setPlace key path = m := by
  simp [setPlace, ← h]

@[simp] theorem place_setPlace {key : ClassKey} {path : Option Path} :
    (m.setPlace key path).place key = path := by
  simp [setPlace]

theorem place_setPlace_of_ne {key k : ClassKey} {path : Option Path} (h : k ≠ key) :
    (m.setPlace key path).place k = m.place k :=
  Function.update_of_ne h _ _

@[simp] theorem result_setResult {key : ResultKey} {e : Binary64 × Option MethodFacts} :
    (m.setResult key e).result key = some e := by
  simp [setResult]

theorem result_setResult_of_ne {key k : ResultKey} {e : Binary64 × Option MethodFacts}
    (h : k ≠ key) : (m.setResult key e).result k = m.result k :=
  Function.update_of_ne h _ _

end Memory

/-- A session turns into another one with the same context and a given memory; it counts some hits
and scans, and may leave notes. -/
structure Turns (s : Session) (m : Memory) (hits scans : Nat) (t : Session) : Prop where
  context_eq : t.context = s.context
  memory_eq : t.memory = m
  hits_eq : t.classHits = s.classHits + hits
  scans_eq : t.classScans = s.classScans + scans

variable {s t u : Session}

theorem Turns.trans {m m' : Memory} {h h' n n' : Nat} (hst : Turns s m h n t)
    (htu : Turns t m' h' n' u) : Turns s m' (h + h') (n + n') u where
  context_eq := htu.context_eq.trans hst.context_eq
  memory_eq := htu.memory_eq
  hits_eq := by rw [htu.hits_eq, hst.hits_eq, Nat.add_assoc]
  scans_eq := by rw [htu.scans_eq, hst.scans_eq, Nat.add_assoc]

/-! ## Projects -/

/-- The project of a root: the one that is kept, or the one that is loaded now. -/
def projectOf (c : Context) (m : Memory) (root : Path) : Except Fault (ProjectKey × Project) := do
  let rules ← DiscoveryRules.ofConfig c.rules.config
  let key : ProjectKey := ⟨root, ← rules.findBuildFile c.disk root⟩
  match m.project key with
  | some p => return (key, p)
  | none => return (key, (← Project.load c.disk c.languages rules root).1)

variable {c : Context} {m m' : Memory} {root : Path} {key : ProjectKey} {p q : Project}

/-- A root has a project if its build file can be looked up and the project is kept or loads. -/
theorem projectOf_eq_ok_iff :
    projectOf c m root = .ok (key, p) ↔
      ∃ rules build, DiscoveryRules.ofConfig c.rules.config = .ok rules ∧
        rules.findBuildFile c.disk root = .ok build ∧ key = ⟨root, build⟩ ∧
        (m.project ⟨root, build⟩ = some p ∨ m.project ⟨root, build⟩ = none ∧
          ∃ notes, Project.load c.disk c.languages rules root = .ok (p, notes)) := by
  unfold projectOf
  cases hr : DiscoveryRules.ofConfig c.rules.config with
  | error f => simp
  | ok rules =>
    cases hb : rules.findBuildFile c.disk root with
    | error f => simp [hb]
    | ok build =>
      cases hm : m.project ⟨root, build⟩ with
      | some q => simp [hb, hm, eq_comm]
      | none =>
        cases hl : Project.load c.disk c.languages rules root with
        | error f => simp [hb, hm, hl]
        | ok r => simp [hb, hm, hl, Prod.ext_iff, eq_comm]

/-- A project that cannot be loaded changes nothing. -/
theorem perform_project_error {f : Fault} (h : projectOf s.context s.memory root = .error f) :
    perform (project root) s = (.error f, s) := by
  simp only [projectOf, context, memory] at h
  simp only [project, projectKey, perform_bind, perform_get, perform_lift, perform_pure]
  cases hr : DiscoveryRules.ofConfig s.rules.config with
  | error g => simp_all
  | ok rules =>
    cases hb : rules.findBuildFile s.disk root with
    | error g => simp_all
    | ok build =>
      cases hm : s.projects.lookup ⟨root, build⟩ with
      | some q => simp [hr, hb, hm] at h
      | none =>
        cases hl : Project.load s.disk s.languages rules root with
        | error g =>
          simp only [hr, hb, hm, hl, ok_bind, error_bind, Except.error.injEq] at h
          simp [hb, hm, hl, h, perform_bind]
        | ok r => simp [hr, hb, hm, hl] at h

/-- A project that is asked for is kept. -/
theorem perform_project (h : projectOf s.context s.memory root = .ok (key, p)) :
    ∃ t, perform (project root) s = (.ok (key, p), t) ∧ Turns s (s.memory.keep key p) 0 0 t := by
  obtain ⟨rules, build, hr, hb, rfl, hkept | ⟨hnone, notes, hl⟩⟩ := projectOf_eq_ok_iff.1 h
  · refine ⟨s, ?_, rfl, (Memory.keep_eq_self hkept).symm, rfl, rfl⟩
    simp only [context, memory] at hr hb hkept
    simp [project, projectKey, perform_bind, hr, hb, hkept]
  · simp only [context, memory] at hr hb hnone hl
    have hrun : perform (project root) s = (.ok (⟨root, build⟩, p), { s with
        projects := (⟨root, build⟩, p) :: s.projects
        projectLoads := s.projectLoads + 1
        notes := .projectMissed root ((build.map Path.toText).getD "no-build-config") ::
          (notes ++ s.notes) }) := by
      simp [project, projectKey, perform_bind, hr, hb, hnone, hl]
    refine ⟨_, hrun, rfl, ?_, rfl, rfl⟩
    simp only [memory, Memory.keep, Memory.mk.injEq, and_true]
    funext k
    rw [lookup_cons_eq_ite, Function.update_apply]

/-- Once a project is kept, it is the project of its root. -/
theorem projectOf_of_kept (h : projectOf c m root = .ok (key, p))
    (hq : m'.project key = some q) : projectOf c m' root = .ok (key, q) := by
  obtain ⟨rules, build, hr, hb, rfl, -⟩ := projectOf_eq_ok_iff.1 h
  exact projectOf_eq_ok_iff.2 ⟨rules, build, hr, hb, rfl, .inl hq⟩

/-- A project replaces the one under its key, if there is one. -/
theorem lookup_putProject (k : ProjectKey) (l : List (ProjectKey × Project)) :
    (putProject key p l).lookup k =
      if k = key ∧ (l.lookup key).isSome then some p else l.lookup k := by
  induction l with
  | nil => simp [putProject]
  | cons e l ih =>
    obtain ⟨j, q⟩ := e
    unfold putProject
    by_cases hj : j = key
    · subst hj
      by_cases hk : k = j <;> simp [hk, lookup_cons_eq_ite]
    · have hkey : ((j, q) :: l).lookup key = l.lookup key := by
        rw [lookup_cons_eq_ite, if_neg fun e => hj e.symm]
      rw [if_neg hj, hkey, lookup_cons_eq_ite, lookup_cons_eq_ite, ih]
      by_cases hk : k = j
      · subst hk
        simp [hj]
      · simp [hk]

/-- Reading files of a kept project puts the project as it is afterwards in its place. -/
theorem perform_loading {step : StateM Loading α} {a : α} {l : Loading}
    (hkept : s.memory.project key = some p)
    (hstep : step.run ⟨s.disk, s.languages, q, s.notes⟩ = (a, l)) :
    ∃ t, perform (loading key q step) s = (.ok a, t) ∧
      Turns s (s.memory.keep key l.project) 0 0 t := by
  have hrun : perform (loading key q step) s = (.ok a, { s with
      projects := putProject key l.project s.projects, notes := l.notes }) := by
    simp [loading, perform_bind, hstep]
  refine ⟨_, hrun, rfl, ?_, rfl, rfl⟩
  simp only [memory, Memory.keep, Memory.mk.injEq, and_true] at hkept ⊢
  funext k
  rw [lookup_putProject, Function.update_apply, hkept]
  simp

/-- Opening a project and reading files of it. -/
theorem perform_project_loading {step : StateM Loading α} {a : α}
    (h : projectOf s.context s.memory root = .ok (key, p))
    (hstep : ∀ notes, ∃ notes', step.run ⟨s.disk, s.languages, p, notes⟩ =
      (a, ⟨s.disk, s.languages, q, notes'⟩)) :
    ∃ t u, perform (project root) s = (.ok (key, p), t) ∧
      Turns s (s.memory.keep key p) 0 0 t ∧
      perform (loading key p step) t = (.ok a, u) ∧ Turns s (s.memory.keep key q) 0 0 u := by
  obtain ⟨t, ht, hturn⟩ := perform_project h
  have hdisk : t.disk = s.disk := congrArg Context.disk hturn.context_eq
  have hlanguages : t.languages = s.languages := congrArg Context.languages hturn.context_eq
  obtain ⟨notes', hrun⟩ := hstep t.notes
  rw [← hdisk, ← hlanguages] at hrun
  obtain ⟨u, hu, hturn'⟩ := perform_loading (by rw [hturn.memory_eq, Memory.project_keep]) hrun
  rw [hturn.memory_eq, Memory.keep_keep] at hturn'
  exact ⟨t, u, ht, hturn, hu, hturn.trans hturn'⟩

/-! ## Look-ups -/

/-- What a look-up of a class comes to. -/
structure Lookup where
  /-- The class that was found. -/
  answer : Option ClassDecl
  /-- The project, with what was read of it. -/
  project : Project
  /-- Where the class is remembered from now on. -/
  place : Option Path
  /-- Whether the remembered place was right. -/
  isHit : Bool

/-- Looks a class up in a project, given where it was found before. -/
def lookUp (d : Disk) (ls : Languages) (name : String) (p : Project) (place : Option Path) :
    Lookup :=
  match place.bind fun path => (p.unitOf d ls path).bind (·.findClass? name) with
  | some c => ⟨some c, (place.map (p.remember d ls)).getD p, place, true⟩
  | none =>
    let q := (place.map (p.remember d ls)).getD p
    let found := (q.declarations d ls name).head?
    ⟨found, q.search d ls name q.files, found.map (·.unit.path), false⟩

theorem lookUp_none (d : Disk) (ls : Languages) (name : String) (p : Project) :
    lookUp d ls name p none = ⟨(p.declarations d ls name).head?, p.search d ls name p.files,
      (p.declarations d ls name).head?.map (·.unit.path), false⟩ := rfl

theorem lookUp_of_found {d : Disk} {ls : Languages} {name : String} {p : Project} {path : Path}
    {c : ClassDecl} (h : (p.unitOf d ls path).bind (·.findClass? name) = some c) :
    lookUp d ls name p (some path) = ⟨some c, p.remember d ls path, some path, true⟩ := by
  simp [lookUp, h]

/-- If the class is not where it was found before, it is as if there was no such place. -/
theorem lookUp_of_stale {d : Disk} {ls : Languages} {name : String} {p : Project} {path : Path}
    (h : (p.unitOf d ls path).bind (·.findClass? name) = none) :
    lookUp d ls name p (some path) = lookUp d ls name (p.remember d ls path) none := by
  simp [lookUp, h]

theorem extends_remember_place (d : Disk) (ls : Languages) (p : Project) (place : Option Path) :
    p.Extends d ls ((place.map (p.remember d ls)).getD p) := by
  cases place with
  | none => exact .refl p
  | some path => exact Project.extends_remember d ls p path

theorem extends_lookUp (d : Disk) (ls : Languages) (name : String) (p : Project)
    (place : Option Path) : p.Extends d ls (lookUp d ls name p place).project := by
  have hplace := extends_remember_place d ls p place
  unfold lookUp
  split
  · exact hplace
  · exact hplace.trans (Project.extends_search d ls name _ _)

variable {name : String} {r : Path}

theorem memory_addPlace (s : Session) (key : ClassKey) (path : Path) :
    memory { s with places := (key, path) :: s.places } = s.memory.setPlace key (some path) := by
  simp only [memory, Memory.setPlace, Memory.mk.injEq, and_true, true_and]
  funext k
  rw [lookup_cons_eq_ite, Function.update_apply]

theorem perform_forgetPlace (s : Session) (key : ClassKey) :
    ∃ t, perform (forgetPlace key) s = (.ok ⟨⟩, t) ∧
      Turns s (s.memory.setPlace key none) 0 0 t := by
  refine ⟨_, rfl, rfl, ?_, rfl, rfl⟩
  simp only [memory, Memory.setPlace, Memory.mk.injEq, and_true, true_and]
  funext k
  rw [lookup_filter_fst (fun k => decide (k ≠ key)), Function.update_apply]
  by_cases hk : k = key <;> simp [hk]

/-- A scan that starts with no remembered place. -/
theorem perform_scanForClass (name : String) (h : projectOf s.context s.memory root = .ok (key, p))
    (hplace : s.memory.place ⟨root, name⟩ = none) :
    ∃ t, perform (scanForClass root name) s =
        (.ok (p.declarations s.disk s.languages name).head?, t) ∧
      Turns s ((s.memory.keep key (p.search s.disk s.languages name p.files)).setPlace ⟨root, name⟩
        ((p.declarations s.disk s.languages name).head?.map (·.unit.path))) 0 1 t := by
  let s₁ : Session := { s with classScans := s.classScans + 1 }
  have hcount : Turns s s.memory 0 1 s₁ := ⟨rfl, rfl, rfl, rfl⟩
  obtain ⟨t, u, ht, -, hu, hturn⟩ := perform_project_loading (s := s₁) h
    (Project.firstWith_run s.disk s.languages p name p.files)
  have hsu : Turns s (s.memory.keep key _) 0 1 u := hcount.trans hturn
  rw [← Project.head_declarations] at hu
  rw [scanForClass, perform_bind_ok (perform_modify _ _), perform_bind_ok ht]
  simp only
  rw [perform_bind_ok hu]
  cases (p.declarations s.disk s.languages name).head? with
  | some c =>
    refine ⟨_, rfl, hsu.context_eq, ?_, hsu.hits_eq, hsu.scans_eq⟩
    rw [← hsu.memory_eq]
    exact memory_addPlace u ⟨root, name⟩ c.unit.path
  | none =>
    refine ⟨_, rfl, hsu.context_eq, ?_, hsu.hits_eq, hsu.scans_eq⟩
    rw [Option.map_none, Memory.setPlace_eq_self (by exact hplace)]
    exact hsu.memory_eq

/-- A scan after the remembered place was forgotten. -/
theorem perform_rescan (name : String) (h : projectOf s.context s.memory root = .ok (key, p)) :
    let l := lookUp s.disk s.languages name p none
    ∃ t, perform (do forgetPlace ⟨root, name⟩; scanForClass root name) s = (.ok l.answer, t) ∧
      Turns s ((s.memory.keep key l.project).setPlace ⟨root, name⟩ l.place) 0 1 t := by
  obtain ⟨t, ht, hforget⟩ := perform_forgetPlace s ⟨root, name⟩
  have hproject : projectOf t.context t.memory root = .ok (key, p) := by
    rw [hforget.context_eq, hforget.memory_eq]
    exact h
  obtain ⟨u, hu, hscan⟩ := perform_scanForClass name hproject
    (by rw [hforget.memory_eq, Memory.place_setPlace])
  have hdisk : t.disk = s.disk := congrArg Context.disk hforget.context_eq
  have hlanguages : t.languages = s.languages := congrArg Context.languages hforget.context_eq
  rw [hdisk, hlanguages] at hu hscan
  have hturn := hforget.trans hscan
  refine ⟨u, by rw [perform_bind_ok ht, hu, lookUp_none], hturn.context_eq, ?_, hturn.hits_eq,
    hturn.scans_eq⟩
  rw [hturn.memory_eq, hforget.memory_eq, lookUp_none]
  simp [Memory.keep, Memory.setPlace]

/-- The class at a remembered place. -/
theorem perform_classAt (hkept : s.memory.project key = some p) (path : Path) (name : String) :
    ∃ t, perform (classAt key p path name) s =
        (.ok ((p.unitOf s.disk s.languages path).bind (·.findClass? name)), t) ∧
      Turns s (s.memory.keep key (p.remember s.disk s.languages path)) 0 0 t := by
  obtain ⟨notes, hrun⟩ := Project.unit_run s.disk s.languages p path s.notes
  obtain ⟨t, ht, hturn⟩ := perform_loading hkept hrun
  exact ⟨t, by rw [classAt, perform_bind_ok ht]; rfl, hturn⟩

theorem perform_resolveRoot (hroot : Path.resolve s.directory r = root) :
    perform (resolveRoot r) s = (.ok root, s) := by
  rw [← hroot]
  rfl

/-- The answer and the memory after a class was looked up. -/
theorem perform_findClass (name : String) (hroot : Path.resolve s.directory r = root)
    (h : projectOf s.context s.memory root = .ok (key, p)) :
    let l := lookUp s.disk s.languages name p (s.memory.place ⟨root, name⟩)
    ∃ t, perform (findClass r name) s = (.ok l.answer, t) ∧
      Turns s ((s.memory.keep key l.project).setPlace ⟨root, name⟩ l.place)
        (if l.isHit then 1 else 0) (if l.isHit then 0 else 1) t := by
  obtain ⟨t, ht, hturn⟩ := perform_project h
  have hdisk : t.disk = s.disk := congrArg Context.disk hturn.context_eq
  have hlanguages : t.languages = s.languages := congrArg Context.languages hturn.context_eq
  have hkept : t.memory.project key = some p := by rw [hturn.memory_eq, Memory.project_keep]
  have hplaces : t.memory.place ⟨root, name⟩ = s.memory.place ⟨root, name⟩ := by
    rw [hturn.memory_eq]
    rfl
  rw [findClass, perform_bind_ok (perform_resolveRoot hroot), perform_bind_ok ht]
  simp only
  rw [perform_bind_ok (perform_get t), show t.places.lookup _ = _ from hplaces]
  cases hplace : s.memory.place ⟨root, name⟩ with
  | none =>
    have hproject : projectOf t.context t.memory root = .ok (key, p) := by
      rw [hturn.context_eq]
      exact projectOf_of_kept h hkept
    obtain ⟨u, hu, hturn'⟩ := perform_scanForClass name hproject (hplaces.trans hplace)
    rw [hdisk, hlanguages, hturn.memory_eq, Memory.keep_keep] at hturn'
    rw [hdisk, hlanguages] at hu
    exact ⟨u, hu, hturn.trans hturn'⟩
  | some path =>
    obtain ⟨u, hu, hread⟩ := perform_classAt hkept path name
    rw [hdisk, hlanguages] at hu
    rw [hdisk, hlanguages, hturn.memory_eq, Memory.keep_keep] at hread
    rw [perform_bind_ok hu]
    cases hc : (p.unitOf s.disk s.languages path).bind (·.findClass? name) with
    | some c =>
      rw [lookUp_of_found hc]
      have hsu := hturn.trans hread
      refine ⟨_, rfl, hsu.context_eq, ?_, ?_, hsu.scans_eq⟩
      · rw [Memory.setPlace_eq_self (by exact hplace)]
        exact hsu.memory_eq
      · exact congrArg (· + 1) hsu.hits_eq
    | none =>
      -- The remembered place is stale: it is forgotten, and the scan starts over.
      have hsu := hturn.trans hread
      have hproject : projectOf u.context u.memory root =
          .ok (key, p.remember s.disk s.languages path) := by
        rw [hsu.context_eq]
        exact projectOf_of_kept h (by rw [hsu.memory_eq, Memory.project_keep])
      obtain ⟨w, hw, hscan⟩ := perform_rescan name hproject
      have hudisk : u.disk = s.disk := congrArg Context.disk hsu.context_eq
      have hulanguages : u.languages = s.languages := congrArg Context.languages hsu.context_eq
      rw [hudisk, hulanguages] at hw hscan
      rw [hsu.memory_eq, Memory.keep_keep] at hscan
      rw [lookUp_of_stale hc]
      exact ⟨w, hw, hsu.trans hscan⟩

/-- The answer and the memory after the declarations of a class were listed. -/
theorem perform_findDeclarations (name : String) (hroot : Path.resolve s.directory r = root)
    (h : projectOf s.context s.memory root = .ok (key, p)) :
    ∃ t, perform (findDeclarations r name) s = (.ok (p.declarations s.disk s.languages name), t) ∧
      Turns s (s.memory.keep key (p.files.foldl (Project.remember s.disk s.languages) p))
        0 0 t := by
  obtain ⟨t, u, ht, -, hu, hturn⟩ :=
    perform_project_loading h (Project.unitsOf_run s.disk s.languages p p.files)
  refine ⟨u, ?_, hturn⟩
  rw [findDeclarations, perform_bind_ok (perform_resolveRoot hroot), perform_bind_ok ht]
  simp only
  rw [perform_bind_ok hu]
  rfl

/-- The answer and the memory after a file was asked for. -/
theorem perform_unitAt (path : Path) (hroot : Path.resolve s.directory r = root)
    (h : projectOf s.context s.memory root = .ok (key, p)) :
    ∃ t, perform (unitAt r path) s = (.ok (p.unitOf s.disk s.languages path), t) ∧
      Turns s (s.memory.keep key (p.remember s.disk s.languages path)) 0 0 t := by
  obtain ⟨t, u, ht, -, hu, hturn⟩ :=
    perform_project_loading h (Project.unit_run s.disk s.languages p path)
  refine ⟨u, ?_, hturn⟩
  rw [unitAt, perform_bind_ok (perform_resolveRoot hroot), perform_bind_ok ht]
  exact hu

/-- The answer after all files were asked for. -/
theorem perform_loadAll (hroot : Path.resolve s.directory r = root)
    (h : projectOf s.context s.memory root = .ok (key, p)) :
    ∃ t, perform (loadAll r) s =
      (.ok (p.files.filterMap (p.unitOf s.disk s.languages)).length, t) := by
  obtain ⟨t, u, ht, -, hu, -⟩ :=
    perform_project_loading h (Project.unitsOf_run s.disk s.languages p p.files)
  refine ⟨u, ?_⟩
  rw [loadAll, perform_bind_ok (perform_resolveRoot hroot), perform_bind_ok ht]
  simp only
  rw [perform_bind_ok hu]
  rfl

/-- The answer and the memory after the limit of a root was asked for. -/
theorem perform_classLimit (hroot : Path.resolve s.directory r = root)
    (h : projectOf s.context s.memory root = .ok (key, p)) :
    ∃ t, perform (classLimit r) s = (.ok (p.size s.disk + 1), t) ∧
      Turns s (s.memory.keep key p) 0 0 t := by
  obtain ⟨t, ht, hturn⟩ := perform_project h
  have hdisk : t.disk = s.disk := congrArg Context.disk hturn.context_eq
  refine ⟨t, ?_, hturn⟩
  rw [classLimit, perform_bind_ok (perform_resolveRoot hroot), perform_bind_ok ht]
  simp only
  rw [perform_bind_ok (perform_get t), perform_pure, hdisk]

/-- A root without a project has no look-up, and nothing is kept for it. -/
theorem perform_findClass_error {f : Fault} (hroot : Path.resolve s.directory r = root)
    (h : projectOf s.context s.memory root = .error f) :
    perform (findClass r name) s = (.error f, s) := by
  rw [findClass, perform_bind_ok (perform_resolveRoot hroot),
    perform_bind_error (perform_project_error h)]

theorem perform_findDeclarations_error {f : Fault} (hroot : Path.resolve s.directory r = root)
    (h : projectOf s.context s.memory root = .error f) :
    perform (findDeclarations r name) s = (.error f, s) := by
  rw [findDeclarations, perform_bind_ok (perform_resolveRoot hroot),
    perform_bind_error (perform_project_error h)]

theorem perform_unitAt_error {f : Fault} (path : Path) (hroot : Path.resolve s.directory r = root)
    (h : projectOf s.context s.memory root = .error f) :
    perform (unitAt r path) s = (.error f, s) := by
  rw [unitAt, perform_bind_ok (perform_resolveRoot hroot),
    perform_bind_error (perform_project_error h)]

theorem perform_classLimit_error {f : Fault} (hroot : Path.resolve s.directory r = root)
    (h : projectOf s.context s.memory root = .error f) :
    perform (classLimit r) s = (.error f, s) := by
  rw [classLimit, perform_bind_ok (perform_resolveRoot hroot),
    perform_bind_error (perform_project_error h)]

end Session

end RouteLens
