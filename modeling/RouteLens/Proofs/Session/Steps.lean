import RouteLens.Proofs.Session.Memory

/-!
# Steps of a session

What happens to a session from outside: queries about a root, files that are written or deleted, the
clock, and what is dropped on request.  `Session.after` runs a list of steps.

`Closed` collects what a relation between sessions has to satisfy to hold between a session and what
becomes of it by any query about a root (`Closed.ask`).  `Touches` says what a query can do to the
memory, one thing at a time; a relation about memories need only be checked there
(`FullyClosed.of_touches`).  The invariants of a run are derived from it.
-/

namespace RouteLens

variable {edition : Nat} [CharacterNames edition]

namespace Session

/-- What can be asked about a root. -/
inductive Query where
  | classOf (className : String)
  | declarationsOf (className : String)
  | firstServiceCall (className methodName : String)
  | serviceCalls (className methodName : String)
  | methodFacts (className methodName : String)
  | complexity (className methodName : String)
  | loopFetches (className methodName : String)
  | exception (className : String)
  | payload (className : String) (maxDepth : Option Int)
  | handlerPayloads (className methodName : String)
  | auth (className methodName : String)
  | apiDocs (className methodName : String)

/-- The type of the answer to a query. -/
@[reducible] def Query.Answer : Query → Type
  | .classOf _ => Option ClassDecl
  | .declarationsOf _ => List ClassDecl
  | .firstServiceCall _ _ => Option ServiceCall
  | .serviceCalls _ _ => Option (List ServiceCall)
  | .methodFacts _ _ => Option MethodFacts
  | .complexity _ _ => Option Nat
  | .loopFetches _ _ => Option LoopFinding
  | .exception _ => Option ExceptionHint
  | .payload _ _ => Option Value
  | .handlerPayloads _ _ => Option (Ordered Value)
  | .auth _ _ => Option AuthUsage
  | .apiDocs _ _ => Option DocUsage

/-- Answers a query about a root. -/
def ask (root : Path) : (q : Query) → Action q.Answer
  | .classOf c => run root (Inquiry.findClass c)
  | .declarationsOf c => run root (Inquiry.findDeclarations c)
  | .firstServiceCall c m => run root (RouteLens.firstServiceCall c m)
  | .serviceCalls c m => run root (traceServiceCalls c m)
  | .methodFacts c m => do return (← analyze root c m).1
  | .complexity c m => run root (methodComplexity c m)
  | .loopFetches c m => do run root (methodLoopFinding (← get).rules.config c m)
  | .exception c => do run root (classException (.ok (← get).rules.exceptions) c)
  | .payload c depth => samplePayload root c depth
  | .handlerPayloads c m => sampleHandler root c m
  | .auth c m => do run root (handlerAuth (.ok (← get).rules.auth) c m)
  | .apiDocs c m => do run root (handlerDocs (.ok (← get).rules.docs) c m)

/-- Something that happens to a session. -/
inductive Step where
  | ask (root : Path) (q : Query)
  | openProject (root : Path)
  | invalidate (root : Path)
  | clearResults
  | advance (seconds : Binary64)
  | write (path : Path) (bytes : List UInt8)
  | delete (path : Path)

namespace Step

/-- The session after a step. -/
def apply : Step → Session → Session
  | .ask root q, s => (perform (Session.ask root q) s).2
  | .openProject root, s => (perform (do project (← resolveRoot root)) s).2
  | .invalidate root, s => (perform (Session.invalidate root) s).2
  | .clearResults, s => { s with results := s.results.clear }
  | .advance seconds, s => { s with now := s.now.add seconds }
  | .write path bytes, s => { s with disk := s.disk.write path bytes }
  | .delete path, s => { s with disk := s.disk.remove path }

/-- The root that a step is about; some steps are about none. -/
def root? : Step → Option Path
  | .ask root _ => some root
  | .openProject root => some root
  | .invalidate root => some root
  | _ => none

/-- Whether a step leaves all files as they are. -/
def leavesDisk : Step → Bool
  | .write _ _ => false
  | .delete _ => false
  | _ => true

end Step

/-- The session after some steps. -/
def after (s : Session) (steps : List Step) : Session :=
  steps.foldl (fun s e => e.apply s) s

@[simp] theorem after_nil (s : Session) : s.after [] = s := rfl

@[simp] theorem after_cons (s : Session) (e : Step) (steps : List Step) :
    s.after (e :: steps) = (e.apply s).after steps := rfl

theorem after_append (s : Session) (first second : List Step) :
    s.after (first ++ second) = (s.after first).after second :=
  List.foldl_append ..

theorem perform_classOf (r : Path) (name : String) (s : Session) :
    perform (ask r (.classOf name)) s = perform (findClass r name) s := by
  rw [show ask r (.classOf name) = findClass r name >>= pure from rfl, perform_bind]
  rcases perform (findClass r name) s with ⟨x | x, t⟩ <;> rfl

/-! ## The facts about a method -/

/-- The facts about a method that was looked up, if it was found. -/
def factsOf (rules : SessionRules) : Option MethodDecl → Except Fault (Option MethodFacts)
  | none => .ok none
  | some m => do
    return some (← m.gatherFacts rules.exceptions (← transactionPatterns rules.config))

/-- The facts that are kept under a key and have not expired. -/
def keptResult (c : Context) (m : Memory) (key : ResultKey) : Option (Option MethodFacts) :=
  ((m.result key).filter fun e =>
    !({ ttl := c.ttl } : ResultCache (Option MethodFacts)).isExpired c.now ⟨e.1, 0, e.2⟩).map
      Prod.snd

theorem keptResult_eq (s : Session) (key : ResultKey) :
    keptResult s.context s.memory key = (s.results.get? s.now key).map (·.value) := by
  simp only [keptResult, memory, ResultCache.get?]
  cases s.results.entryOf? key with
  | none => rfl
  | some e =>
    simp only [Option.map_some, Option.filter_some, ResultCache.isExpired, context]
    split <;> rfl

variable {s t : Session} {r root : Path} {c m : String} {f : Fault}

theorem perform_methodFacts_kept {facts : Option MethodFacts}
    (hr : Path.resolve s.directory r = root)
    (hkept : keptResult s.context s.memory ⟨root, c, m⟩ = some facts) :
    ∃ notes, perform (ask r (.methodFacts c m)) s = (.ok facts, { s with notes }) := by
  rw [keptResult_eq] at hkept
  obtain ⟨e, he, rfl⟩ := Option.map_eq_some_iff.1 hkept
  simp only [ask, bind_pure_comp, perform_map]
  rw [analyze, perform_bind_ok (perform_resolveRoot hr), perform_bind_ok (perform_get s)]
  simp only [he]
  exact ⟨_, rfl⟩

theorem perform_methodFacts_run_error (hr : Path.resolve s.directory r = root)
    (hkept : keptResult s.context s.memory ⟨root, c, m⟩ = none)
    (hrun : perform (run root (Inquiry.findMethod c m)) s = (.error f, t)) :
    perform (ask r (.methodFacts c m)) s = (.error f, t) := by
  rw [keptResult_eq, Option.map_eq_none_iff] at hkept
  simp only [ask, bind_pure_comp, perform_map]
  rw [analyze, perform_bind_ok (perform_resolveRoot hr), perform_bind_ok (perform_get s)]
  simp only [hkept]
  rw [perform_bind_error hrun]
  rfl

variable {found : Option MethodDecl}

/-- Facts that cannot be gathered are not kept. -/
theorem perform_methodFacts_error (hr : Path.resolve s.directory r = root)
    (hkept : keptResult s.context s.memory ⟨root, c, m⟩ = none)
    (hrun : perform (run root (Inquiry.findMethod c m)) s = (.ok found, t))
    (hfacts : factsOf s.rules found = .error f) :
    ∃ notes, perform (ask r (.methodFacts c m)) s = (.error f, { t with notes }) := by
  rw [keptResult_eq, Option.map_eq_none_iff] at hkept
  simp only [ask, bind_pure_comp, perform_map]
  rw [analyze, perform_bind_ok (perform_resolveRoot hr), perform_bind_ok (perform_get s)]
  simp only [hkept]
  rw [perform_bind_ok hrun]
  cases found with
  | none => cases hfacts
  | some d =>
    simp only [factsOf] at hfacts
    cases htransactions : transactionPatterns s.rules.config with
    | error g =>
      rw [htransactions] at hfacts
      cases hfacts
      exact ⟨t.notes, by simp [perform_bind]⟩
    | ok transactions =>
      cases hgather : d.gatherFacts s.rules.exceptions transactions with
      | error g =>
        simp only [htransactions, ok_bind, hgather] at hfacts
        cases hfacts
        exact ⟨_, by simp [perform_bind, hgather, leaveNotes]; rfl⟩
      | ok facts =>
        simp only [htransactions, ok_bind, hgather] at hfacts
        cases hfacts

/-- Facts that are gathered are kept under the method. -/
theorem perform_methodFacts {facts : Option MethodFacts} (hr : Path.resolve s.directory r = root)
    (hkept : keptResult s.context s.memory ⟨root, c, m⟩ = none)
    (hrun : perform (run root (Inquiry.findMethod c m)) s = (.ok found, t))
    (hfacts : factsOf s.rules found = .ok facts) :
    ∃ notes, perform (ask r (.methodFacts c m)) s = (.ok facts,
      { t with notes, results := t.results.put t.now ⟨root, c, m⟩ facts }) := by
  rw [keptResult_eq, Option.map_eq_none_iff] at hkept
  simp only [ask, bind_pure_comp, perform_map]
  rw [analyze, perform_bind_ok (perform_resolveRoot hr), perform_bind_ok (perform_get s)]
  simp only [hkept]
  rw [perform_bind_ok hrun]
  cases found with
  | none =>
    cases hfacts
    exact ⟨_, rfl⟩
  | some d =>
    obtain ⟨transactions, htransactions, hfacts⟩ := bind_eq_ok_iff.1 hfacts
    obtain ⟨x, hgather, hfacts⟩ := bind_eq_ok_iff.1 hfacts
    cases hfacts
    exact ⟨_, by simp [perform_bind, htransactions, hgather, leaveNotes]; rfl⟩

/-! ## What a query can do -/

variable {α : Type} {R : Session → Session → Prop}

/-- A relation between sessions that every part of a query about a root stays within. -/
structure Closed (root : Path) (R : Session → Session → Prop) : Prop where
  refl : ∀ s, R s s
  trans : ∀ {s t u}, R s t → R t u → R s u
  directory_eq : ∀ {s t}, R s t → t.directory = s.directory
  notes : ∀ s notes, R s { s with notes }
  findClass : ∀ s r name, Path.resolve s.directory r = root → R s (perform (findClass r name) s).2
  findDeclarations : ∀ s r name, Path.resolve s.directory r = root →
    R s (perform (findDeclarations r name) s).2
  project : ∀ s, R s (perform (project root) s).2
  put : ∀ s c m facts, R s { s with results := s.results.put s.now ⟨root, c, m⟩ facts }

namespace Closed

variable (h : Closed root R) {s : Session} {r : Path}
include h

theorem bind {β : Type} {a : Action α} {f : α → Action β} (ha : R s (perform a s).2)
    (hf : ∀ x t, perform a s = (.ok x, t) → R t (perform (f x) t).2) :
    R s (perform (a >>= f) s).2 := by
  rw [perform_bind]
  rcases hp : perform a s with ⟨x | x, t⟩
  · simpa [hp] using ha
  · simp only [hp] at ha
    exact h.trans ha (hf x t hp)

theorem run (q : Inquiry α) (hr : Path.resolve s.directory r = root) :
    R s (perform (run r q) s).2 := by
  induction q generalizing s with
  | done a => exact h.refl s
  | fail f => exact h.refl s
  | find name next ih =>
    refine h.bind (h.findClass s r name hr) fun c t ht => ih c ?_
    rw [← hr, ← h.directory_eq (h.findClass s r name hr), ht]
  | declarations name next ih =>
    refine h.bind (h.findDeclarations s r name hr) fun cs t ht => ih cs ?_
    rw [← hr, ← h.directory_eq (h.findDeclarations s r name hr), ht]
  | note n next ih => exact h.trans (h.notes s _) (ih hr)

/-- What is closed under the touches of the memory is closed under asking for facts. -/
theorem methodFacts (hr : Path.resolve s.directory r = root) :
    R s (perform (Session.ask r (.methodFacts c m)) s).2 := by
  cases hkept : keptResult s.context s.memory ⟨root, c, m⟩ with
  | some facts =>
    obtain ⟨notes, hp⟩ := perform_methodFacts_kept hr hkept
    rw [hp]
    exact h.notes s notes
  | none =>
    have hroot : Path.resolve s.directory root = root := by rw [← hr, Path.resolve_resolve]
    have hfind := h.run (Inquiry.findMethod c m) hroot
    rcases hrun : perform (Session.run root (Inquiry.findMethod c m)) s with ⟨f | found, t⟩
    · rw [hrun] at hfind
      rwa [perform_methodFacts_run_error hr hkept hrun]
    · rw [hrun] at hfind
      cases hfacts : factsOf s.rules found with
      | error f =>
        obtain ⟨notes, hp⟩ := perform_methodFacts_error hr hkept hrun hfacts
        rw [hp]
        exact h.trans hfind (h.notes t notes)
      | ok facts =>
        obtain ⟨notes, hp⟩ := perform_methodFacts hr hkept hrun hfacts
        rw [hp]
        exact h.trans hfind (h.trans (h.put t c m facts) (h.notes _ notes))

theorem classLimit (hr : Path.resolve s.directory r = root) :
    R s (perform (classLimit r) s).2 := by
  rw [Session.classLimit, perform_bind_ok (perform_resolveRoot hr)]
  exact h.bind (h.project s) fun x t _ => h.refl t

theorem limited (hr : Path.resolve s.directory r = root) (q : Nat → Inquiry α) :
    R s (perform (do Session.run r (q (← Session.classLimit r))) s).2 := by
  refine h.bind (h.classLimit hr) fun limit t ht => h.run (q limit) ?_
  rw [← hr, ← h.directory_eq (h.classLimit hr), ht]

/-- What is closed under the touches of the memory is closed under every query. -/
theorem ask (q : Query) (hr : Path.resolve s.directory r = root) :
    R s (perform (ask r q) s).2 := by
  cases q with
  | methodFacts c m => exact h.methodFacts hr
  | payload c depth =>
    rw [Session.ask, samplePayload, perform_bind_ok (perform_get s), perform_bind, perform_lift]
    cases PayloadRules.ofConfig s.rules.config with
    | error f => exact h.refl s
    | ok rules => exact h.limited hr fun limit => synthesize rules limit c depth
  | handlerPayloads c m =>
    exact h.limited hr fun limit => handlerPayloads s.rules.config limit c m
  | classOf c => exact h.run _ hr
  | declarationsOf c => exact h.run _ hr
  | firstServiceCall c m => exact h.run _ hr
  | serviceCalls c m => exact h.run _ hr
  | complexity c m => exact h.run _ hr
  | loopFetches c m => exact h.run _ hr
  | exception c => exact h.run _ hr
  | auth c m => exact h.run _ hr
  | apiDocs c m => exact h.run _ hr

theorem openProject (hr : Path.resolve s.directory r = root) :
    R s ((Step.openProject r).apply s) := by
  rw [Step.apply, perform_bind_ok (perform_resolveRoot hr)]
  exact h.project s

end Closed

/-- Asking for all files does to a session what listing declarations does. -/
theorem snd_loadAll (r : Path) (name : String) (s : Session) :
    (perform (loadAll r) s).2 = (perform (findDeclarations r name) s).2 := by
  rw [loadAll, findDeclarations, perform_bind_ok (perform_resolveRoot rfl),
    perform_bind_ok (perform_resolveRoot rfl), perform_bind, perform_bind]
  rcases perform (project (Path.resolve s.directory r)) s with ⟨f | ⟨key, p⟩, t⟩
  · rfl
  · simp only
    rw [perform_bind, perform_bind]
    rcases perform (loading key p (Project.unitsOf p.files)) t with ⟨f | units, u⟩ <;> rfl

/-- A relation between sessions that every query about a root stays within, also one for a single
file. -/
structure FullyClosed (root : Path) (R : Session → Session → Prop) : Prop
    extends Closed root R where
  unitAt : ∀ s r path, Path.resolve s.directory r = root → R s (perform (unitAt r path) s).2

theorem FullyClosed.loadAll (h : FullyClosed root R) (hr : Path.resolve s.directory r = root) :
    R s (perform (loadAll r) s).2 := by
  rw [snd_loadAll r ""]
  exact h.findDeclarations s r "" hr

/-! ## Steps through the views -/

/-- The context after a step. -/
def Step.onContext : Step → Context → Context
  | .advance seconds, c => { c with now := c.now.add seconds }
  | .write path bytes, c => { c with disk := c.disk.write path bytes }
  | .delete path, c => { c with disk := c.disk.remove path }
  | _, c => c

/-- The memory without what is kept for a root. -/
def Memory.drop (m : Memory) (root : Path) : Memory where
  project key := if key.root = root then none else m.project key
  place key := if key.root = root then none else m.place key
  result key := if key.root = root then none else m.result key

theorem memory_put (s : Session) (key : ResultKey) (facts : Option MethodFacts) :
    memory { s with results := s.results.put s.now key facts } =
      s.memory.setResult key (s.now, facts) := by
  simp only [memory, Memory.setResult, Memory.mk.injEq, true_and]
  funext k
  rw [ResultCache.entryOf?_put, Function.update_apply]
  by_cases hk : k = key <;> simp [hk]

/-- Dropping a root leaves the context, and empties the memory of the root. -/
theorem apply_invalidate (hr : Path.resolve s.directory r = root) :
    ((Step.invalidate r).apply s).context = s.context ∧
      ((Step.invalidate r).apply s).memory = s.memory.drop root := by
  rw [Step.apply, invalidate, perform_bind_ok (perform_resolveRoot hr), perform_modify]
  refine ⟨rfl, ?_⟩
  simp only [memory, Memory.drop, Memory.mk.injEq]
  refine ⟨?_, ?_, ?_⟩
  · funext k
    rw [lookup_filter_fst fun k : ProjectKey => decide (k.root ≠ root)]
    by_cases hk : k.root = root <;> simp [hk]
  · funext k
    rw [lookup_filter_fst fun k : ClassKey => decide (k.root ≠ root)]
    by_cases hk : k.root = root <;> simp [hk]
  · funext k
    rw [ResultCache.entryOf?_invalidate]
    by_cases hk : k.root = root <;> simp [hk]

/-! ## What a query does to the memory -/

/-- What a query about a root can do to the memory, one thing at a time: nothing at all, read files
of the project, look for a class in it, or keep the facts about a method. -/
inductive Touches (root : Path) (c : Context) (m : Memory) : Memory → Prop
  | nothing : Touches root c m m
  | files {key : ProjectKey} {p : Project} (paths : List Path)
      (hp : projectOf c m root = .ok (key, p)) :
      Touches root c m (m.keep key (paths.foldl (Project.remember c.disk c.languages) p))
  | lookUp {key : ProjectKey} {p : Project} (name : String)
      (hp : projectOf c m root = .ok (key, p)) :
      Touches root c m
        ((m.keep key (lookUp c.disk c.languages name p (m.place ⟨root, name⟩)).project).setPlace
          ⟨root, name⟩ (lookUp c.disk c.languages name p (m.place ⟨root, name⟩)).place)
  | result (className methodName : String) (e : Binary64 × Option MethodFacts) :
      Touches root c m (m.setResult ⟨root, className, methodName⟩ e)

/-- A relation that says of two sessions that they have the same context, and something about their
memories, need only hold for one touch. -/
theorem FullyClosed.of_touches {G : Context → Memory → Memory → Prop}
    (hR : ∀ {s t}, R s t ↔ t.context = s.context ∧ G s.context s.memory t.memory)
    (htrans : ∀ {c m m' m''}, G c m m' → G c m' m'' → G c m m'')
    (htouches : ∀ {c m m'}, Touches root c m m' → G c m m') : FullyClosed root R := by
  have hturn : ∀ {s t m hits scans}, Turns s m hits scans t →
      Touches root s.context s.memory m → R s t := fun hturn h =>
    hR.2 ⟨hturn.context_eq, hturn.memory_eq.symm ▸ htouches h⟩
  have hnotes : ∀ s notes, R s { s with notes } := fun s notes => hR.2 ⟨rfl, htouches .nothing⟩
  refine ⟨⟨fun s => hnotes s s.notes, fun h h' => ?_, fun h => ?_, hnotes, fun s r name hr => ?_,
    fun s r name hr => ?_, fun s => ?_, fun s c m facts => ?_⟩, fun s r path hr => ?_⟩
  · obtain ⟨hst, hG⟩ := hR.1 h
    obtain ⟨htu, hG'⟩ := hR.1 h'
    exact hR.2 ⟨htu.trans hst, htrans hG (hst ▸ hG')⟩
  · exact congrArg Context.directory (hR.1 h).1
  · cases hp : projectOf s.context s.memory root with
    | error f =>
      rw [perform_findClass_error hr hp]
      exact hnotes s s.notes
    | ok kp =>
      obtain ⟨t, ht, h⟩ := perform_findClass name hr hp
      rw [ht]
      exact hturn h (.lookUp name hp)
  · cases hp : projectOf s.context s.memory root with
    | error f =>
      rw [perform_findDeclarations_error hr hp]
      exact hnotes s s.notes
    | ok kp =>
      obtain ⟨t, ht, h⟩ := perform_findDeclarations name hr hp
      rw [ht]
      exact hturn h (.files kp.2.files hp)
  · cases hp : projectOf s.context s.memory root with
    | error f =>
      rw [perform_project_error hp]
      exact hnotes s s.notes
    | ok kp =>
      obtain ⟨t, ht, h⟩ := perform_project hp
      rw [ht]
      exact hturn h (.files [] hp)
  · exact hR.2 ⟨rfl, by rw [memory_put]; exact htouches (.result c m _)⟩
  · cases hp : projectOf s.context s.memory root with
    | error f =>
      rw [perform_unitAt_error path hr hp]
      exact hnotes s s.notes
    | ok kp =>
      obtain ⟨t, ht, h⟩ := perform_unitAt path hr hp
      rw [ht]
      exact hturn h (.files [path] hp)

/-! ## What a query leaves alone -/

/-- Two memories keep the same for some roots. -/
structure Memory.AgreeOn (roots : Path → Prop) (m m' : Memory) : Prop where
  project_eq : ∀ key : ProjectKey, roots key.root → m.project key = m'.project key
  place_eq : ∀ key : ClassKey, roots key.root → m.place key = m'.place key
  result_eq : ∀ key : ResultKey, roots key.root → m.result key = m'.result key

namespace Memory.AgreeOn

variable {roots : Path → Prop} {m m' m'' : Memory}

theorem refl (m : Memory) : AgreeOn roots m m :=
  ⟨fun _ _ => rfl, fun _ _ => rfl, fun _ _ => rfl⟩

theorem symm (h : AgreeOn roots m m') : AgreeOn roots m' m :=
  ⟨fun k hk => (h.project_eq k hk).symm, fun k hk => (h.place_eq k hk).symm,
    fun k hk => (h.result_eq k hk).symm⟩

theorem trans (h : AgreeOn roots m m') (h' : AgreeOn roots m' m'') : AgreeOn roots m m'' :=
  ⟨fun k hk => (h.project_eq k hk).trans (h'.project_eq k hk),
    fun k hk => (h.place_eq k hk).trans (h'.place_eq k hk),
    fun k hk => (h.result_eq k hk).trans (h'.result_eq k hk)⟩

theorem mono {roots' : Path → Prop} (h : AgreeOn roots m m') (hsub : ∀ r, roots' r → roots r) :
    AgreeOn roots' m m' :=
  ⟨fun k hk => h.project_eq k (hsub _ hk), fun k hk => h.place_eq k (hsub _ hk),
    fun k hk => h.result_eq k (hsub _ hk)⟩

theorem keep {key : ProjectKey} {p : Project} (hkey : ¬ roots key.root) (m : Memory) :
    AgreeOn roots m (m.keep key p) := by
  refine ⟨fun k hk => ?_, fun _ _ => rfl, fun _ _ => rfl⟩
  have hne : k ≠ key := by
    rintro rfl
    exact hkey hk
  exact (Function.update_of_ne hne _ _).symm

theorem setPlace {key : ClassKey} {place : Option Path} (hkey : ¬ roots key.root) (m : Memory) :
    AgreeOn roots m (m.setPlace key place) := by
  refine ⟨fun _ _ => rfl, fun k hk => ?_, fun _ _ => rfl⟩
  have hne : k ≠ key := by
    rintro rfl
    exact hkey hk
  exact (Function.update_of_ne hne _ _).symm

theorem setResult {key : ResultKey} {e : Binary64 × Option MethodFacts} (hkey : ¬ roots key.root)
    (m : Memory) : AgreeOn roots m (m.setResult key e) := by
  refine ⟨fun _ _ => rfl, fun _ _ => rfl, fun k hk => ?_⟩
  have hne : k ≠ key := by
    rintro rfl
    exact hkey hk
  exact (Function.update_of_ne hne _ _).symm

theorem drop (hroot : ¬ roots root) (m : Memory) : AgreeOn roots m (m.drop root) := by
  have hne : ∀ r, roots r → r ≠ root := by
    rintro r hr rfl
    exact hroot hr
  exact ⟨fun k hk => (if_neg (hne _ hk)).symm, fun k hk => (if_neg (hne _ hk)).symm,
    fun k hk => (if_neg (hne _ hk)).symm⟩

end Memory.AgreeOn

/-- Two sessions have the same context and keep the same for some roots. -/
structure AgreeOn (roots : Path → Prop) (s t : Session) : Prop where
  context_eq : s.context = t.context
  memory : Memory.AgreeOn roots s.memory t.memory

namespace AgreeOn

variable {roots : Path → Prop} {u : Session}

theorem refl (s : Session) : AgreeOn roots s s :=
  ⟨rfl, .refl _⟩

theorem symm (h : AgreeOn roots s t) : AgreeOn roots t s :=
  ⟨h.context_eq.symm, h.memory.symm⟩

theorem trans (h : AgreeOn roots s t) (h' : AgreeOn roots t u) : AgreeOn roots s u :=
  ⟨h.context_eq.trans h'.context_eq, h.memory.trans h'.memory⟩

theorem rules_eq (h : AgreeOn roots s t) : s.rules = t.rules :=
  congrArg Context.rules h.context_eq

theorem directory_eq (h : AgreeOn roots s t) : s.directory = t.directory :=
  congrArg Context.directory h.context_eq

theorem disk_eq (h : AgreeOn roots s t) : s.disk = t.disk :=
  congrArg Context.disk h.context_eq

theorem languages_eq (h : AgreeOn roots s t) : s.languages = t.languages :=
  congrArg Context.languages h.context_eq

theorem now_eq (h : AgreeOn roots s t) : s.now = t.now :=
  congrArg Context.now h.context_eq

end AgreeOn

theorem root_eq_of_projectOf {c : Context} {m : Memory} {key : ProjectKey} {p : Project}
    (h : projectOf c m root = .ok (key, p)) : key.root = root := by
  obtain ⟨_, _, _, _, rfl, _⟩ := projectOf_eq_ok_iff.1 h
  rfl

/-- A query about one root leaves alone what is kept for the others. -/
theorem fullyClosed_agreeOn (root : Path) : FullyClosed root (AgreeOn (· ≠ root)) := by
  refine .of_touches (G := fun _ m m' => Memory.AgreeOn (· ≠ root) m m')
    ⟨fun h => ⟨h.context_eq.symm, h.memory⟩, fun h => ⟨h.1.symm, h.2⟩⟩ .trans fun htouches => ?_
  cases htouches with
  | nothing => exact .refl _
  | files paths hp => exact .keep (not_not.2 (root_eq_of_projectOf hp)) _
  | lookUp name hp =>
    have hkey := not_not.2 (root_eq_of_projectOf hp)
    exact (Memory.AgreeOn.keep hkey _).trans (.setPlace (not_not.2 rfl) _)
  | result className methodName e => exact .setResult (not_not.2 rfl) _

/-- A step about one root leaves alone what is kept for the others. -/
theorem agreeOn_apply {e : Step} (he : e.root? = some r) (s : Session) :
    AgreeOn (· ≠ Path.resolve s.directory r) s (e.apply s) := by
  cases e with
  | ask r' q =>
    cases he
    exact (fullyClosed_agreeOn _).ask q rfl
  | openProject r' =>
    cases he
    exact (fullyClosed_agreeOn _).openProject rfl
  | invalidate r' =>
    cases he
    obtain ⟨hcontext, hmemory⟩ := apply_invalidate (s := s) (r := r) rfl
    exact ⟨hcontext.symm, hmemory ▸ .drop (not_not.2 rfl) _⟩
  | clearResults => cases he
  | advance seconds => cases he
  | write path bytes => cases he
  | delete path => cases he

theorem context_apply (e : Step) (s : Session) :
    (e.apply s).context = e.onContext s.context := by
  cases e with
  | ask r q => exact (agreeOn_apply (r := r) rfl s).context_eq.symm
  | openProject r => exact (agreeOn_apply (r := r) rfl s).context_eq.symm
  | invalidate r => exact (agreeOn_apply (r := r) rfl s).context_eq.symm
  | clearResults => rfl
  | advance seconds => rfl
  | write path bytes => rfl
  | delete path => rfl

/-- Steps change no more of the context than the disk and the clock. -/
theorem context_after_eq (steps : List Step) (s : Session) :
    (s.after steps).context =
      { s.context with disk := (s.after steps).disk, now := (s.after steps).now } := by
  induction steps generalizing s with
  | nil => rfl
  | cons e steps ih =>
    rw [after_cons, ih, context_apply]
    cases e <;> rfl

theorem directory_after (steps : List Step) (s : Session) :
    (s.after steps).directory = s.directory :=
  congrArg Context.directory (context_after_eq steps s)

theorem directory_apply (e : Step) (s : Session) : (e.apply s).directory = s.directory :=
  directory_after [e] s

theorem disk_after {steps : List Step} (h : ∀ e ∈ steps, e.leavesDisk = true) (s : Session) :
    (s.after steps).disk = s.disk := by
  induction steps generalizing s with
  | nil => rfl
  | cons e steps ih =>
    have he : (e.apply s).disk = s.disk := by
      have hleaves := h e List.mem_cons_self
      refine (congrArg Context.disk (context_apply e s)).trans ?_
      cases e <;> first | rfl | cases hleaves
    rw [after_cons, ih (fun e' he' => h e' (List.mem_cons_of_mem _ he')), he]

theorem context_after_of_leavesDisk {steps : List Step} (hsteps : ∀ e ∈ steps, e.leavesDisk = true)
    (s : Session) : (s.after steps).context = { s.context with now := (s.after steps).now } := by
  rw [context_after_eq, disk_after hsteps]
  rfl

/-! ## Starting -/

/-- A memory that keeps nothing. -/
def Memory.empty : Memory :=
  ⟨fun _ => none, fun _ => none, fun _ => none⟩

variable {config : Config} {directory : Path} {disk : Disk} {now : Binary64}

/-- A session that starts keeps nothing; the same configuration starts one on every disk and at
every time. -/
theorem start_again (h : start config directory disk now = .ok s) (disk' : Disk)
    (now' : Binary64) :
    ∃ t, start config directory disk' now' = .ok t ∧ t.memory = .empty ∧
      t.context = { s.context with disk := disk', now := now' } := by
  obtain ⟨⟨rules, ttl, notes⟩, hrules, hs⟩ := bind_eq_ok_iff.1 h
  cases hs
  exact ⟨_, bind_eq_ok_iff.2 ⟨_, hrules, rfl⟩, rfl, rfl⟩

theorem views_of_start (h : start config directory disk now = .ok s) :
    s.directory = directory ∧ s.disk = disk ∧ s.memory = .empty := by
  obtain ⟨_, _, hs⟩ := bind_eq_ok_iff.1 h
  cases hs
  exact ⟨rfl, rfl, rfl⟩

/-- What a check finds in a session that starts. -/
theorem exists_start_of_any (config : Config) (directory : Path) (disk : Disk) (now : Binary64)
    (check : Session → Bool)
    (h : (start config directory disk now).toOption.any check = true) :
    ∃ s, start config directory disk now = .ok s ∧ check s = true :=
  exists_ok_of_any h

end Session

end RouteLens
