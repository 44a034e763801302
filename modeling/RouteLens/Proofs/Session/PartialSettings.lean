import RouteLens.Proofs.Analysis.WholeRules
import RouteLens.Proofs.Config.Merging
import RouteLens.Proofs.Session.Isolation
import RouteLens.Proofs.Session.Transparency

/-!
# Sessions with partial settings

A session that starts with a partial configuration, and one that starts with the completed
configuration, have different rules.  Analyses see of the rules only what their readers give
(`SessionRules.Alike`).

* `Blind` says that an action does the same in a session with other rules.  Every query is blind to
  rules that are alike (`Blind.ask`), and so is every step.
* The two sessions have left different notes when they start.  Notes are not seen either, by what
  was shown about sessions that agree.
-/

namespace RouteLens

section

variable {edition : Nat} [CharacterNames edition]

/-- Two sets of rules from which every analysis reads the same. -/
structure SessionRules.Alike (rules rules' : SessionRules) : Prop where
  limits_eq : rules'.limits = rules.limits
  auth_eq : rules'.auth = rules.auth
  docs_eq : rules'.docs = rules.docs
  exceptions_eq : rules'.exceptions = rules.exceptions
  discovery_eq : DiscoveryRules.ofConfig rules'.config = DiscoveryRules.ofConfig rules.config
  payload_eq : PayloadRules.ofConfig rules'.config = PayloadRules.ofConfig rules.config
  fetches_eq : FetchNames.ofConfig rules'.config = FetchNames.ofConfig rules.config
  transactions_eq : transactionPatterns rules'.config = transactionPatterns rules.config
  feedback_eq : FeedbackRules.ofConfig rules'.config = FeedbackRules.ofConfig rules.config

variable {rules rules' : SessionRules}

namespace SessionRules.Alike

variable (h : rules.Alike rules')
include h

theorem handlerPayloads_eq : handlerPayloads rules'.config = handlerPayloads rules.config := by
  funext limit className methodName
  simp only [handlerPayloads, h.payload_eq]

theorem methodLoopFinding_eq :
    methodLoopFinding rules'.config = methodLoopFinding rules.config := by
  funext className methodName
  simp only [methodLoopFinding, h.fetches_eq]

theorem routeReport_eq : routeReport rules' = routeReport rules := by
  have hcalls : callIssues rules' = callIssues rules := by
    funext calls issues
    induction calls generalizing issues with
    | nil => rfl
    | cons call rest ih =>
      simp only [callIssues, targetIssues, h.limits_eq, h.methodLoopFinding_eq, ih]
  funext route
  simp only [routeReport, controllerIssues, serviceIssues, h.feedback_eq, h.docs_eq, h.auth_eq,
    h.fetches_eq, hcalls]

end SessionRules.Alike

namespace Session

variable {α β : Type}

/-- A session with other rules. -/
def setRules (s : Session) (rules : SessionRules) : Session :=
  { s with rules }

/-- An action keeps the rules of a session, and does the same in the session with other rules. -/
def Blind (rules rules' : SessionRules) (a : Action α) : Prop :=
  ∀ s, s.rules = rules → (perform a s).2.rules = rules ∧
    perform a (s.setRules rules') = ((perform a s).1, (perform a s).2.setRules rules')

namespace Blind

theorem pure (x : α) : Blind rules rules' (Pure.pure x : Action α) :=
  fun _ hs => ⟨hs, rfl⟩

theorem throw (f : Fault) : Blind rules rules' (MonadExcept.throw f : Action α) :=
  fun _ hs => ⟨hs, rfl⟩

theorem lift (x : Except Fault α) : Blind rules rules' (liftM x : Action α) := by
  intro s hs
  rw [perform_lift, perform_lift]
  exact ⟨hs, rfl⟩

theorem bind {a : Action α} {f : α → Action β} (ha : Blind rules rules' a)
    (hf : ∀ x, Blind rules rules' (f x)) : Blind rules rules' (a >>= f) := by
  intro s hs
  obtain ⟨hrules, hperform⟩ := ha s hs
  rcases hp : perform a s with ⟨e | x, t⟩
  · rw [hp] at hrules hperform
    rw [perform_bind_error hp, perform_bind_error hperform]
    exact ⟨hrules, rfl⟩
  · rw [hp] at hrules hperform
    rw [perform_bind_ok hp, perform_bind_ok hperform]
    exact hf x t hrules

theorem get {f : Session → Action α}
    (hf : ∀ s, s.rules = rules → Blind rules rules' (f s) ∧ f (s.setRules rules') = f s) :
    Blind rules rules' (MonadState.get >>= f) := by
  intro s hs
  obtain ⟨hblind, hsame⟩ := hf s hs
  rw [perform_bind_ok (perform_get s), perform_bind_ok (perform_get _), hsame]
  exact hblind s hs

theorem modify {f : Session → Session} (hrules : ∀ s, (f s).rules = s.rules)
    (hf : ∀ s, f (s.setRules rules') = (f s).setRules rules') :
    Blind rules rules' (modify f) := by
  intro s hs
  rw [perform_modify, perform_modify, hf]
  exact ⟨(hrules s).trans hs, rfl⟩

/-! ## Look-ups -/

theorem leaveNotes (notes : List Note) : Blind rules rules' (leaveNotes notes) :=
  modify (fun _ => rfl) fun _ => rfl

theorem resolveRoot (r : Path) : Blind rules rules' (resolveRoot r) :=
  get fun _ _ => ⟨pure _, rfl⟩

theorem project (h : rules.Alike rules') (root : Path) : Blind rules rules' (project root) := by
  rintro s rfl
  simp only [Session.project, projectKey, perform_bind, perform_get, perform_lift, perform_pure,
    setRules, h.discovery_eq]
  cases DiscoveryRules.ofConfig s.rules.config with
  | error f => exact ⟨rfl, rfl⟩
  | ok discovery =>
    cases hbuild : discovery.findBuildFile s.disk root with
    | error f => simp [hbuild]
    | ok build =>
      cases hkept : s.projects.lookup ⟨root, build⟩ with
      | some p => simp [hbuild, hkept]
      | none =>
        cases hload : Project.load s.disk s.languages discovery root with
        | error f => simp [hbuild, hkept, hload, perform_bind]
        | ok loaded => simp [hbuild, hkept, hload, perform_bind]

theorem loading (key : ProjectKey) (p : Project) (step : StateM Loading α) :
    Blind rules rules' (loading key p step) := by
  rintro s rfl
  simp only [Session.loading, perform_bind, perform_get, setRules]
  rcases step.run ⟨s.disk, s.languages, p, s.notes⟩ with ⟨a, l⟩
  exact ⟨rfl, rfl⟩

theorem classAt (key : ProjectKey) (p : Project) (path : Path) (name : String) :
    Blind rules rules' (classAt key p path name) :=
  (loading key p _).bind fun _ => pure _

theorem forgetPlace (key : ClassKey) : Blind rules rules' (forgetPlace key) :=
  modify (fun _ => rfl) fun _ => rfl

section

variable (h : rules.Alike rules')
include h

theorem scanForClass (root : Path) (name : String) :
    Blind rules rules' (scanForClass root name) := by
  refine bind (modify (fun _ => rfl) fun _ => rfl) fun _ => bind (project h root) fun kp =>
    bind (loading kp.1 kp.2 _) fun c => ?_
  cases c with
  | none => exact bind (leaveNotes _) fun _ => pure _
  | some c =>
    exact bind (modify (fun _ => rfl) fun _ => rfl) fun _ => bind (leaveNotes _) fun _ => pure _

theorem findClass (r : Path) (name : String) : Blind rules rules' (findClass r name) := by
  refine (resolveRoot r).bind fun root => (project h root).bind fun kp => get fun s _ => ⟨?_, rfl⟩
  cases s.places.lookup ⟨root, name⟩ with
  | none => exact scanForClass h root name
  | some path =>
    refine (classAt kp.1 kp.2 path name).bind fun c => ?_
    cases c with
    | some c => exact bind (modify (fun _ => rfl) fun _ => rfl) fun _ => pure _
    | none => exact (forgetPlace _).bind fun _ => scanForClass h root name

theorem findDeclarations (r : Path) (name : String) :
    Blind rules rules' (findDeclarations r name) :=
  (resolveRoot r).bind fun root => (project h root).bind fun kp =>
    (loading kp.1 kp.2 _).bind fun _ => pure _

theorem run (r : Path) (q : Inquiry α) : Blind rules rules' (run r q) := by
  induction q with
  | done a => exact pure a
  | fail f => exact throw f
  | find name next ih => exact (findClass h r name).bind ih
  | declarations name next ih => exact (findDeclarations h r name).bind ih
  | note n next ih => exact (leaveNotes [n]).bind fun _ => ih

theorem classLimit (r : Path) : Blind rules rules' (classLimit r) :=
  (resolveRoot r).bind fun root => (project h root).bind fun _ => get fun _ _ => ⟨pure _, rfl⟩

/-- Analyzing a method sees no difference between rules that are alike. -/
theorem analyze (r : Path) (c m : String) : Blind rules rules' (analyze r c m) := by
  refine (resolveRoot r).bind fun root => get fun s hs => ⟨?_, ?_⟩
  · cases s.results.get? s.now ⟨root, c, m⟩ with
    | some e => exact (leaveNotes _).bind fun _ => pure _
    | none =>
      -- what is found is put in, whether the method was there or not
      have hput (facts : Option MethodFacts) : Blind rules rules' (do
          MonadState.modifyGet fun s =>
            (⟨⟩, { s with results := s.results.put s.now ⟨root, c, m⟩ facts })
          return (facts, (← MonadState.get).results.serial - 1)) :=
        bind (modify (fun _ => rfl) fun _ => rfl) fun _ => get fun _ _ => ⟨pure _, rfl⟩
      refine bind (run h root _) fun found => ?_
      cases found with
      | none => exact bind (pure none) hput
      | some d =>
        exact bind (lift _) fun _ => bind (leaveNotes _) fun _ => bind (lift _) fun _ =>
          bind (pure _) hput
  · subst hs
    simp only [setRules, h.transactions_eq, h.exceptions_eq]

/-! ## Queries -/

/-- No query sees a difference between rules that are alike. -/
theorem ask (r : Path) (q : Query) : Blind rules rules' (ask r q) := by
  cases q with
  | methodFacts c m => exact (analyze h r c m).bind fun _ => pure _
  | payload c depth =>
    refine get fun s hs => ⟨bind (lift _) fun _ => bind (classLimit h r) fun _ => run h r _, ?_⟩
    subst hs
    simp only [setRules, h.payload_eq]
  | handlerPayloads c m =>
    refine get fun s hs => ⟨bind (classLimit h r) fun _ => run h r _, ?_⟩
    subst hs
    simp only [setRules, h.handlerPayloads_eq]
  | classOf c => exact run h r _
  | declarationsOf c => exact run h r _
  | firstServiceCall c m => exact run h r _
  | serviceCalls c m => exact run h r _
  | complexity c m => exact run h r _
  | loopFetches c m =>
    refine get fun s hs => ⟨run h r _, ?_⟩
    subst hs
    simp only [setRules, h.methodLoopFinding_eq]
  | exception c =>
    refine get fun s hs => ⟨run h r _, ?_⟩
    subst hs
    simp only [setRules, h.exceptions_eq]
  | auth c m =>
    refine get fun s hs => ⟨run h r _, ?_⟩
    subst hs
    simp only [setRules, h.auth_eq]
  | apiDocs c m =>
    refine get fun s hs => ⟨run h r _, ?_⟩
    subst hs
    simp only [setRules, h.docs_eq]

end

end Blind

/-! ## Steps and runs -/

variable {s t : Session} {c : Config} {directory : Path} {disk : Disk} {now : Binary64}

theorem Blind.perform_snd {a : Action α} (h : Blind s.rules rules' a) :
    (perform a s).2.rules = s.rules ∧
      (perform a (s.setRules rules')).2 = (perform a s).2.setRules rules' :=
  ⟨(h s rfl).1, congrArg Prod.snd (h s rfl).2⟩

theorem apply_setRules (h : s.rules.Alike rules') (e : Step) :
    (e.apply s).rules = s.rules ∧ e.apply (s.setRules rules') = (e.apply s).setRules rules' := by
  cases e with
  | ask r q => exact (Blind.ask h r q).perform_snd
  | openProject r => exact ((Blind.resolveRoot r).bind fun root => Blind.project h root).perform_snd
  | invalidate r =>
    refine Blind.perform_snd ?_
    exact Blind.bind (Blind.resolveRoot r) fun root => Blind.modify (fun _ => rfl) fun _ => rfl
  | clearResults => exact ⟨rfl, rfl⟩
  | advance seconds => exact ⟨rfl, rfl⟩
  | write path bytes => exact ⟨rfl, rfl⟩
  | delete path => exact ⟨rfl, rfl⟩

theorem after_setRules (h : s.rules.Alike rules') (steps : List Step) :
    (s.after steps).rules = s.rules ∧
      (s.setRules rules').after steps = (s.after steps).setRules rules' := by
  induction steps generalizing s with
  | nil => exact ⟨rfl, rfl⟩
  | cons e steps ih =>
    obtain ⟨hrules, happly⟩ := apply_setRules h e
    obtain ⟨hrules', hafter⟩ := ih (hrules ▸ h)
    rw [after_cons, after_cons, happly]
    exact ⟨hrules'.trans hrules, hafter⟩

/-- Two sessions with rules that are alike, which differ in nothing else but notes, give the same
results after the same steps. -/
theorem result_eq_of_alike {a : Action α} (root : Path) (h : s.rules.Alike t.rules)
    (hcontext : t.context = { s.context with rules := t.rules }) (hmemory : t.memory = s.memory)
    (steps : List Step) (ha : Blind s.rules t.rules a)
    (hmatches : ∀ u v, u.directory = s.directory → AgreeOn (· = root) u v → Matches root a u v) :
    (perform a (s.after steps)).1 = (perform a (t.after steps)).1 := by
  obtain ⟨hrules, hafter⟩ := after_setRules h steps
  have hblind := (ha (s.after steps) hrules).2
  rw [← hafter] at hblind
  have hagree : AgreeOn (· = root) (s.setRules t.rules) t := by
    refine ⟨hcontext.symm, ?_⟩
    rw [hmemory]
    exact .refl _
  -- with the other rules, both runs agree with the run of the steps that concern the root
  have hrun : AgreeOn (· = root) ((s.setRules t.rules).after steps) (t.after steps) := by
    refine (hagree.after steps).trans ?_
    rw [hagree.directory_eq]
    exact ((AgreeOn.refl t).after steps).symm
  have hdirectory : ((s.setRules t.rules).after steps).directory = s.directory :=
    directory_after steps (s.setRules t.rules)
  rw [← (hmatches _ _ hdirectory hrun).result_eq, hblind]

/-! ## Starting -/

/-- How long results are kept by a configuration. -/
def readTtl (c : Config) : Except Fault Binary64 := do
  (← (← c.overlaid "cache" Config.cacheDefaults).need "result_ttl").toFloat

theorem readTtl_merge (h : c.IsGiven) : readTtl (Config.merge c.sections) = readTtl c :=
  h.overlaid_congr rfl (by decide) fun es es' hes => by simp only [hes.need]

/-- The two sections that are not completed in the same way when they are read: one that sets no
patterns for the caller has to give both lists or nothing, and one about transactions has to give
its patterns. -/
structure FillsIn (c : Config) : Prop where
  auth : ∀ es, c.section? "auth" = some (.dict es) → AuthRules.fillsIn es = true
  transactions : ∀ es, c.section? "transactions" = some (.dict es) →
    (Value.get? es "patterns").isSome = true

/-- A configuration and the completed one have the same fault, or give rules that are alike. -/
theorem readRules_merge (h : c.IsGiven) (hfills : FillsIn c) :
    (∃ f, readRules c = .error f ∧ readRules (Config.merge c.sections) = .error f) ∨
      ∃ rules rules' ttl notes notes', readRules c = .ok (rules, ttl, notes) ∧
        readRules (Config.merge c.sections) = .ok (rules', ttl, notes') ∧ rules.Alike rules' := by
  have hread (c : Config) : readRules c = do
      let ttl ← readTtl c
      let limits ← ComplexityLimits.ofConfig c
      let auth ← AuthRules.ofConfig c
      let es ← c.entries "auth"
      let docs ← DocRules.ofConfig c
      let exceptions ← ExceptionRules.ofConfig c
      let authNote : Note := if AuthRules.isSet es then
        .authRead auth.params.usable.length auth.decorators.usable.length else .authDefault
      return (⟨c, limits, auth, docs, exceptions⟩, ttl,
        [.limitsRead limits.info limits.warn] ++ auth.params.notes ++ auth.decorators.notes ++
          [authNote]) := by
    simp only [readRules, readTtl, bind_assoc]
  obtain ⟨es, hes⟩ := h.exists_section
    (show Config.default.section? "auth" = some (.dict Config.authDefaults) from rfl)
  rw [hread, hread, readTtl_merge h, complexityLimits_merge h, authRules_merge h hfills.auth,
    docRules_merge h, exceptionRules_merge h, hes.entries_eq, hes.entries_merge]
  -- the readings come in one order, and the first that fails is the fault of both
  rcases readTtl c with f | ttl
  · exact .inl ⟨f, rfl, rfl⟩
  rcases ComplexityLimits.ofConfig c with f | limits
  · exact .inl ⟨f, rfl, rfl⟩
  rcases AuthRules.ofConfig c with f | auth
  · exact .inl ⟨f, rfl, rfl⟩
  rcases DocRules.ofConfig c with f | docs
  · exact .inl ⟨f, rfl, rfl⟩
  rcases ExceptionRules.ofConfig c with f | exceptions
  · exact .inl ⟨f, rfl, rfl⟩
  exact .inr ⟨_, _, ttl, _, _, rfl, rfl, rfl, rfl, rfl, rfl, discoveryRules_merge h,
    payloadRules_merge h, fetchNames_merge h, transactionPatterns_merge h hfills.transactions,
    feedbackRules_merge h⟩

theorem orDefault_merge (h : c.IsGiven) :
    (Config.merge c.sections).orDefault = Config.merge c.sections := by
  obtain ⟨es, hes⟩ := h.exists_section
    (show Config.default.section? "auth" = some (.dict Config.authDefaults) from rfl)
  have hmerged := hes.merged
  unfold Config.orDefault
  split
  case isTrue hempty =>
    rw [Config.section?, List.isEmpty_iff.1 hempty] at hmerged
    cases hmerged
  case isFalse => rfl

/-- The facts about a method in a session that starts, where a check holds of them. -/
theorem exists_facts_of_any {s : Session} (hempty : s.memory = .empty) (root : Path)
    (className methodName : String) (check : MethodFacts → Bool)
    (h : ((Inquiry.findMethod className methodName).answerIn
      (classesOf s.context (Path.resolve s.directory root))).toOption.any fun found =>
        found.any fun m => (transactionPatterns s.rules.config).toOption.any fun ps =>
          (m.gatherFacts s.rules.exceptions ps).toOption.any check) :
    ∃ facts, (perform (ask root (.methodFacts className methodName)) s).1 = .ok (some facts) ∧
      check facts = true := by
  obtain ⟨found, hfound, h⟩ := exists_ok_of_any h
  obtain ⟨m, rfl, h⟩ := (Option.any_eq_true ..).1 h
  obtain ⟨ps, hps, h⟩ := exists_ok_of_any h
  obtain ⟨facts, hfacts, hcheck⟩ := exists_ok_of_any h
  have hyields : Yields s.context (ask root (.methodFacts className methodName)) _ s :=
    .methodFacts (coherent_of_empty rfl hempty) rfl
  refine ⟨facts, ?_, hcheck⟩
  rw [hyields.result_eq, factsFor, show s.context.directory = s.directory from rfl, hfound, ok_bind,
    factsOf, show s.context.rules = s.rules from rfl, hps, ok_bind, hfacts]
  rfl

/-- A partial configuration and the completed one start sessions that give the same answers and
reports, on every disk and after all steps, or neither starts one, by the same fault.  The sections
about the caller and about transactions have to be such that their readers complete them. -/
theorem answers_merge (h : c.IsGiven) (hfills : FillsIn c) (directory : Path) (disk : Disk)
    (now : Binary64) :
    (∃ f, start c directory disk now = .error f ∧
      start (Config.merge c.sections) directory disk now = .error f) ∨
    ∃ s t, start c directory disk now = .ok s ∧
      start (Config.merge c.sections) directory disk now = .ok t ∧
      ∀ steps root,
        (∀ q, (perform (ask root q) (s.after steps)).1 =
          (perform (ask root q) (t.after steps)).1) ∧
        ∀ route, (perform (run root (routeReport s.rules route)) (s.after steps)).1 =
          (perform (run root (routeReport t.rules route)) (t.after steps)).1 := by
  unfold start
  rw [orDefault_merge h]
  by_cases hempty : c.sections.isEmpty = true
  · -- nothing is given, and both start with the default configuration
    have hdefault : c.orDefault = Config.merge c.sections := by
      rw [Config.orDefault, if_pos hempty, List.isEmpty_iff.1 hempty]
      rfl
    rw [hdefault]
    rcases readRules (Config.merge c.sections) with f | r
    · exact .inl ⟨f, rfl, rfl⟩
    · exact .inr ⟨_, _, rfl, rfl, fun steps root => ⟨fun q => rfl, fun route => rfl⟩⟩
  · rw [Config.orDefault, if_neg hempty]
    rcases readRules_merge h hfills with
      ⟨f, hc, hmerge⟩ | ⟨rules, rules', ttl, notes, notes', hc, hmerge, halike⟩
    · rw [hc, hmerge]
      exact .inl ⟨f, rfl, rfl⟩
    · rw [hc, hmerge]
      let s : Session := { rules, directory, disk, now, results := { ttl }, notes := notes.reverse }
      let t : Session :=
        { rules := rules', directory, disk, now, results := { ttl }, notes := notes'.reverse }
      refine .inr ⟨s, t, rfl, rfl, fun steps root => ⟨fun q => ?_, fun route => ?_⟩⟩
      · exact result_eq_of_alike (s := s) (t := t) (Path.resolve directory root) halike rfl rfl
          steps (Blind.ask halike root q) fun u v hdirectory hagree =>
            Matches.ask q hagree (by rw [hdirectory])
      · rw [show routeReport t.rules = routeReport s.rules from halike.routeReport_eq]
        exact result_eq_of_alike (s := s) (t := t) (Path.resolve directory root) halike rfl rfl
          steps (Blind.run halike root _) fun u v hdirectory hagree =>
            Matches.run _ hagree (by rw [hdirectory])

end Session

end

namespace Session

/-- A configuration that gives some of the decorators that document an operation, one list about the
caller, and no transaction patterns has the answers of the completed one. -/
theorem answers_merge_documented :
    let c : Config := ⟨.ofTexts [
      ("openapi", .dict (Entries.ofTexts [("operation", Config.textList ["documented"])])),
      ("auth", .dict (Entries.ofTexts [("decorators", Config.textList ["guarded"])])),
      ("transactions", .dict (Entries.ofTexts [("patterns", .list [])]))]⟩
    let root : Path := ⟨"/", ["app"]⟩
    let disk : Disk :=
      ⟨[(["app", "src", "m.py"], "class H:\n @documented\n def f(s): 0".toUTF8.toList)], []⟩
    c.IsGiven ∧ FillsIn c ∧ ∃ s t, start c ⟨"/", []⟩ disk (.zero false) = .ok s ∧
      start (Config.merge c.sections) ⟨"/", []⟩ disk (.zero false) = .ok t ∧
      (perform (ask root (.apiDocs "H" "f")) (s.after [.ask root (.methodFacts "H" "f")])).1 =
        (perform (ask root (.apiDocs "H" "f")) (t.after [.ask root (.methodFacts "H" "f")])).1 ∧
      (perform (ask root (.apiDocs "H" "f")) s).1 =
        .ok (some ⟨true, false, false, false, ["documented"]⟩) := by
  intro c root disk
  have hgiven : c.IsGiven := by
    refine ⟨by decide, fun name v _ hv => ?_⟩
    simp only [c, Config.section?, Entries.ofTexts, List.map, Value.get?_cons] at hv
    split at hv
    · exact ⟨_, (Option.some.inj hv).symm, by decide⟩
    split at hv
    · exact ⟨_, (Option.some.inj hv).symm, by decide⟩
    split at hv
    · exact ⟨_, (Option.some.inj hv).symm, by decide⟩
    · cases hv
  have hfills : FillsIn c := by
    refine ⟨fun es hes => ?_, fun es hes => ?_⟩
    · cases hes
      decide +kernel
    · cases hes
      rfl
  obtain ⟨s, hs, hcheck⟩ := exists_start_of_any c ⟨"/", []⟩ disk (.zero false)
    (fun s => (perform (ask root (.apiDocs "H" "f")) s).1 =
      .ok (some ⟨true, false, false, false, ["documented"]⟩))
    (by decide +kernel)
  rcases answers_merge hgiven hfills ⟨"/", []⟩ disk (.zero false) with
    ⟨f, hf, -⟩ | ⟨s', t, hs', ht, hsame⟩
  · rw [hs] at hf
    cases hf
  · rw [hs] at hs'
    cases hs'
    exact ⟨hgiven, hfills, s, t, hs, ht, (hsame _ root).1 _, of_decide_eq_true hcheck⟩

/-- A section about transactions without patterns has none, where the completed configuration has
the default ones: only its session sees the decorator of a method.  A section about the caller that
takes the decorators away is left aside, where the completed configuration has none. -/
theorem answers_merge_differ :
    let c : Config := ⟨.ofTexts [
      ("auth", .dict (Entries.ofTexts [("decorators", .list [])])), ("transactions", .dict [])]⟩
    let root : Path := ⟨"/", ["app"]⟩
    let disk : Disk :=
      ⟨[(["app", "src", "m.py"], "class H:\n @db.atomic\n def f(s): 0".toUTF8.toList)], []⟩
    ∃ s t, start c ⟨"/", []⟩ disk (.zero false) = .ok s ∧
      start (Config.merge c.sections) ⟨"/", []⟩ disk (.zero false) = .ok t ∧
      (∃ facts, (perform (ask root (.methodFacts "H" "f")) s).1 = .ok (some facts) ∧
        facts.usesTransaction = false) ∧
      (∃ facts, (perform (ask root (.methodFacts "H" "f")) t).1 = .ok (some facts) ∧
        facts.usesTransaction = true) ∧
      s.rules.auth.decorators.usable.length = 8 ∧ t.rules.auth.decorators.usable.length = 0 := by
  intro c root disk
  obtain ⟨s, hs, hcheck⟩ := exists_start_of_any c ⟨"/", []⟩ disk (.zero false)
    (fun s => s.rules.auth.decorators.usable.length = 8 ∧
      ((Inquiry.findMethod "H" "f").answerIn
        (classesOf s.context (Path.resolve s.directory root))).toOption.any fun found =>
          found.any fun m => (transactionPatterns s.rules.config).toOption.any fun ps =>
            (m.gatherFacts s.rules.exceptions ps).toOption.any (!·.usesTransaction))
    (by decide +kernel)
  obtain ⟨t, ht, hcheck'⟩ := exists_start_of_any (Config.merge c.sections) ⟨"/", []⟩ disk
    (.zero false)
    (fun t => t.rules.auth.decorators.usable.length = 0 ∧
      ((Inquiry.findMethod "H" "f").answerIn
        (classesOf t.context (Path.resolve t.directory root))).toOption.any fun found =>
          found.any fun m => (transactionPatterns t.rules.config).toOption.any fun ps =>
            (m.gatherFacts t.rules.exceptions ps).toOption.any MethodFacts.usesTransaction)
    (by decide +kernel)
  obtain ⟨hlength, hfound⟩ := of_decide_eq_true hcheck
  obtain ⟨hlength', hfound'⟩ := of_decide_eq_true hcheck'
  obtain ⟨facts, hfacts, hnone⟩ :=
    exists_facts_of_any (views_of_start hs).2.2 root "H" "f" _ hfound
  obtain ⟨facts', hfacts', hsome⟩ :=
    exists_facts_of_any (views_of_start ht).2.2 root "H" "f" _ hfound'
  exact ⟨s, t, hs, ht, ⟨facts, hfacts, (Bool.not_eq_true' _).mp hnone⟩, ⟨facts', hfacts', hsome⟩,
    hlength, hlength'⟩

end Session

end RouteLens
