import RouteLens.Proofs.Project.Extent
import RouteLens.Proofs.Session.Places

/-!
# What is kept cannot be seen

While no file changes, what a session keeps is what a session that starts would find
(`Coherent`): every kept project is the loaded one with some units read, every remembered place is
that of a first declaration, and every kept result is the one that would be computed.  The answers
of coherent sessions are therefore those of a session that starts (`Yields`).
-/

namespace RouteLens

section

variable {edition : Nat} [CharacterNames edition]

variable {α β : Type}

/-- The answer to an inquiry when looking up classes may be a fault. -/
def Inquiry.answerIn (classes : Except Fault (String → List ClassDecl)) :
    Inquiry α → Except Fault α
  | .done a => .ok a
  | .fail f => .error f
  | .find name next => do (next ((← classes) name).head?).answerIn classes
  | .declarations name next => do (next ((← classes) name)).answerIn classes
  | .note _ next => next.answerIn classes

theorem Inquiry.answerIn_ok (classes : String → List ClassDecl) (q : Inquiry α) :
    q.answerIn (.ok classes) = q.answer classes := by
  induction q with
  | done a => rfl
  | fail f => rfl
  | find name next ih => exact ih _
  | declarations name next ih => exact ih _
  | note n next ih => exact ih

theorem Inquiry.answerIn_find (classes : Except Fault (String → List ClassDecl)) (name : String)
    (next : Option ClassDecl → Inquiry α) :
    (Inquiry.find name next).answerIn classes =
      classes.map (fun classes => (classes name).head?) >>= fun k =>
        (next k).answerIn classes := by
  cases classes <;> rfl

theorem Inquiry.answerIn_declarations (classes : Except Fault (String → List ClassDecl))
    (name : String) (next : List ClassDecl → Inquiry α) :
    (Inquiry.declarations name next).answerIn classes =
      classes.map (fun classes => classes name) >>= fun ks => (next ks).answerIn classes := by
  cases classes <;> rfl

namespace Session

variable {c : Context} {m : Memory} {root r : Path} {key : ProjectKey} {p : Project}
  {name : String} {s : Session}

/-- The classes of every name that a session finds for a root when it starts. -/
def classesOf (c : Context) (root : Path) : Except Fault (String → List ClassDecl) :=
  (projectOf c .empty root).map fun kp => kp.2.declarations c.disk c.languages

/-- The facts that a session finds for a method when it starts. -/
def factsFor (c : Context) (key : ResultKey) : Except Fault (Option MethodFacts) := do
  factsOf c.rules
    (← (Inquiry.findMethod key.className key.methodName).answerIn (classesOf c key.root))

/-- What a session keeps is what a session that starts in a context would find. -/
structure Coherent (c : Context) (s : Session) : Prop where
  context_eq : s.context = { c with now := s.now }
  project : ∀ key p, s.memory.project key = some p →
    ∃ q, projectOf c .empty key.root = .ok (key, q) ∧ q.Extends c.disk c.languages p
  placed : ∀ root, Placed s.context s.memory root
  result : ∀ key e, s.memory.result key = some e → factsFor c key = .ok e.2

/-! ## Projects of coherent sessions -/

/-- A project is loaded as in a session that starts, or it is kept. -/
theorem projectOf_eq_empty_or_kept (c : Context) (m : Memory) (root : Path) :
    projectOf c m root = projectOf c .empty root ∨
      ∃ key p, projectOf c m root = .ok (key, p) ∧ m.project key = some p := by
  unfold projectOf
  cases DiscoveryRules.ofConfig c.rules.config with
  | error f => exact .inl rfl
  | ok rules =>
    simp only [ok_bind]
    cases rules.findBuildFile c.disk root with
    | error f => exact .inl rfl
    | ok build =>
      simp only [ok_bind]
      cases hp : m.project ⟨root, build⟩ with
      | none => exact .inl rfl
      | some p => exact .inr ⟨⟨root, build⟩, p, rfl, hp⟩

namespace Coherent

variable (h : Coherent c s)
include h

theorem disk_eq : s.disk = c.disk :=
  congrArg Context.disk h.context_eq

theorem languages_eq : s.languages = c.languages :=
  congrArg Context.languages h.context_eq

theorem rules_eq : s.rules = c.rules :=
  congrArg Context.rules h.context_eq

theorem directory_eq : s.directory = c.directory :=
  congrArg Context.directory h.context_eq

theorem projectOf_cases (root : Path) :
    (∃ f, projectOf c .empty root = .error f ∧ projectOf s.context s.memory root = .error f) ∨
      ∃ key q p, projectOf c .empty root = .ok (key, q) ∧
        projectOf s.context s.memory root = .ok (key, p) ∧ q.Extends c.disk c.languages p := by
  have hcontext : projectOf s.context s.memory root = projectOf c s.memory root := by
    rw [h.context_eq]
    rfl
  rw [hcontext]
  obtain heq | ⟨key, p, hp, hkept⟩ := projectOf_eq_empty_or_kept c s.memory root
  · rw [heq]
    cases hq : projectOf c .empty root with
    | error f => exact .inl ⟨f, rfl, rfl⟩
    | ok kp => exact .inr ⟨kp.1, kp.2, kp.2, rfl, rfl, .refl _⟩
  · obtain ⟨q, hq, hext⟩ := h.project key p hkept
    rw [root_eq_of_projectOf hp] at hq
    exact .inr ⟨key, q, p, hq, hp, hext⟩

theorem placed_of_closed {t : Session} (hagree : AgreeOn (· ≠ root) s t)
    (hgain : t.context = s.context ∧
      (Placed s.context s.memory root → Gains root s.context s.memory t.memory)) (root' : Path) :
    Placed t.context t.memory root' := by
  by_cases hroot : root' = root
  · subst hroot
    rw [hgain.1]
    exact (hgain.2 (h.placed root')).placed
  · exact (h.placed root').congr (by rw [hagree.context_eq])
      (fun build => (hagree.memory.project_eq ⟨root', build⟩ hroot).symm)
      (fun name => (hagree.memory.place_eq ⟨root', name⟩ hroot).symm)

/-- Keeping the project of a root with more units read is coherent. -/
theorem of_turns {q q' : Project} {m' : Memory} {hits scans : Nat} {t : Session}
    (hturn : Turns s m' hits scans t) (hq : projectOf c .empty root = .ok (key, q))
    (hext : q.Extends c.disk c.languages q')
    (hproject : m'.project = (s.memory.keep key q').project)
    (hresult : m'.result = s.memory.result)
    (hplaced : ∀ root, Placed t.context t.memory root) : Coherent c t where
  context_eq := by
    have hnow : t.now = s.now := congrArg Context.now hturn.context_eq
    rw [hturn.context_eq, h.context_eq, hnow]
  project k p hp := by
    rw [hturn.memory_eq, hproject] at hp
    by_cases hk : k = key
    · subst hk
      rw [Memory.project_keep] at hp
      cases hp
      exact ⟨q, by rw [root_eq_of_projectOf hq]; exact hq, hext⟩
    · rw [Memory.project_keep_of_ne hk] at hp
      exact h.project k p hp
  placed := hplaced
  result k e he := by
    rw [hturn.memory_eq, hresult] at he
    exact h.result k e he

theorem notes (notes : List Note) : Coherent c { s with notes } :=
  ⟨h.context_eq, h.project, h.placed, h.result⟩

theorem put {key : ResultKey} {facts : Option MethodFacts} (hfacts : factsFor c key = .ok facts) :
    Coherent c { s with results := s.results.put s.now key facts } where
  context_eq := h.context_eq
  project := h.project
  placed root := (h.placed root).congr rfl (fun _ => rfl) (fun _ => rfl)
  result k e he := by
    rw [memory_put] at he
    by_cases hk : k = key
    · subst hk
      rw [Memory.result_setResult] at he
      cases he
      exact hfacts
    · rw [Memory.result_setResult_of_ne hk] at he
      exact h.result k e he

end Coherent

/-! ## Answers of coherent sessions -/

/-- An action has a given result, and leaves a coherent session. -/
structure Yields (c : Context) (a : Action α) (x : Except Fault α) (s : Session) : Prop where
  result_eq : (perform a s).1 = x
  coherent : Coherent c (perform a s).2

namespace Yields

theorem of_eq {a : Action α} {x : Except Fault α} {t : Session} (ha : perform a s = (x, t))
    (h : Coherent c t) : Yields c a x s :=
  ⟨by rw [ha], by rw [ha]; exact h⟩

theorem congr {a b : Action α} {x : Except Fault α} (h : Yields c a x s)
    (hab : perform b s = perform a s) : Yields c b x s :=
  ⟨by rw [hab]; exact h.result_eq, by rw [hab]; exact h.coherent⟩

theorem bind {a : Action α} {x : Except Fault α} {f : α → Action β} {y : α → Except Fault β}
    (h : Yields c a x s) (hf : ∀ v t, Coherent c t → Yields c (f v) (y v) t) :
    Yields c (a >>= f) (x >>= y) s := by
  obtain ⟨hresult, hcoherent⟩ := h
  rcases ha : perform a s with ⟨f | v, t⟩
  · rw [ha] at hresult hcoherent
    subst hresult
    exact .of_eq (perform_bind_error ha) hcoherent
  · rw [ha] at hresult hcoherent
    subst hresult
    obtain ⟨hresult, hcoherent⟩ := hf v t hcoherent
    exact ⟨by rw [perform_bind_ok ha]; exact hresult, by rw [perform_bind_ok ha]; exact hcoherent⟩

/-- A class is found as in a session that has just started. -/
theorem findClass (h : Coherent c s) (hr : Path.resolve c.directory r = root) :
    Yields c (findClass r name) ((classesOf c root).map fun classes => (classes name).head?) s := by
  have hs : Path.resolve s.directory r = root := h.directory_eq ▸ hr
  have hplaced := h.placed_of_closed ((fullyClosed_agreeOn root).findClass s r name hs)
    ((fullyClosed_gains root).findClass s r name hs)
  obtain ⟨f, hq, hp⟩ | ⟨key, q, p, hq, hp, hext⟩ := h.projectOf_cases root
  · rw [classesOf, hq]
    exact .of_eq (perform_findClass_error hs hp) h
  · obtain ⟨t, ht, hturn⟩ := perform_findClass name hs hp
    rw [ht] at hplaced
    have hanswer : (lookUp s.disk s.languages name p (s.memory.place ⟨root, name⟩)).answer =
        (p.declarations s.disk s.languages name).head? := (h.placed root).answer_lookUp hp name
    rw [hanswer] at ht
    rw [h.disk_eq, h.languages_eq] at ht hturn
    rw [hext.declarations_eq] at ht
    rw [classesOf, hq]
    exact .of_eq ht (h.of_turns hturn hq (hext.trans (extends_lookUp ..)) rfl rfl hplaced)

theorem findDeclarations (h : Coherent c s) (hr : Path.resolve c.directory r = root) :
    Yields c (findDeclarations r name) ((classesOf c root).map fun classes => classes name) s := by
  have hs : Path.resolve s.directory r = root := h.directory_eq ▸ hr
  have hplaced := h.placed_of_closed ((fullyClosed_agreeOn root).findDeclarations s r name hs)
    ((fullyClosed_gains root).findDeclarations s r name hs)
  obtain ⟨f, hq, hp⟩ | ⟨key, q, p, hq, hp, hext⟩ := h.projectOf_cases root
  · rw [classesOf, hq]
    exact .of_eq (perform_findDeclarations_error hs hp) h
  · obtain ⟨t, ht, hturn⟩ := perform_findDeclarations name hs hp
    rw [ht] at hplaced
    rw [h.disk_eq, h.languages_eq] at ht hturn
    rw [hext.declarations_eq] at ht
    rw [classesOf, hq]
    exact .of_eq ht
      (h.of_turns hturn hq (hext.trans (Project.extends_foldl_remember ..)) rfl rfl hplaced)

theorem run (q : Inquiry α) (h : Coherent c s) (hr : Path.resolve c.directory r = root) :
    Yields c (run r q) (q.answerIn (classesOf c root)) s := by
  induction q generalizing s with
  | done a => exact .of_eq rfl h
  | fail f => exact .of_eq rfl h
  | find name next ih =>
    rw [Inquiry.answerIn_find]
    exact (findClass h hr).bind fun k t ht => ih k ht
  | declarations name next ih =>
    rw [Inquiry.answerIn_declarations]
    exact (findDeclarations h hr).bind fun ks t ht => ih ks ht
  | note n next ih =>
    have hnote : Yields c (leaveNotes [n]) (.ok ⟨⟩) s := .of_eq rfl (h.notes _)
    exact hnote.bind fun _ t ht => ih ht

theorem project (h : Coherent c s) (root : Path) :
    Coherent c (perform (project root) s).2 := by
  have hplaced := h.placed_of_closed ((fullyClosed_agreeOn root).project s)
    ((fullyClosed_gains root).project s)
  obtain ⟨f, -, hp⟩ | ⟨key, q, p, hq, hp, hext⟩ := h.projectOf_cases root
  · rw [perform_project_error hp]
    exact h
  · obtain ⟨t, ht, hturn⟩ := perform_project hp
    rw [ht] at hplaced ⊢
    exact h.of_turns hturn hq hext rfl rfl hplaced

/-- An inquiry that depends on the limit only as long as it does not suffice. -/
theorem limited (h : Coherent c s) (hr : Path.resolve c.directory r = root) {q : Nat → Inquiry α}
    (hq : ∀ classes limit limit', PayloadRules.Suffices classes limit →
      PayloadRules.Suffices classes limit' →
      (q limit).answer classes = (q limit').answer classes) :
    Yields c (do Session.run r (q (← classLimit r)))
      (projectOf c .empty root >>= fun kp =>
        (q (kp.2.size c.disk + 1)).answer (kp.2.declarations c.disk c.languages)) s := by
  have hs : Path.resolve s.directory r = root := h.directory_eq ▸ hr
  obtain ⟨f, hfresh, hp⟩ | ⟨key, p₀, p, hfresh, hp, hext⟩ := h.projectOf_cases root
  · rw [hfresh]
    exact .of_eq (perform_bind_error (perform_classLimit_error hs hp)) h
  · obtain ⟨t, ht, hturn⟩ := perform_classLimit hs hp
    have hplaced := h.placed_of_closed ((fullyClosed_agreeOn root).classLimit hs)
      ((fullyClosed_gains root).classLimit hs)
    rw [ht] at hplaced
    have hcoherent := h.of_turns hturn hfresh hext rfl rfl hplaced
    -- The limits are the sizes of two projects; both suffice, and then they do not matter.
    have hsuffices : PayloadRules.Suffices (p₀.declarations c.disk c.languages)
        (p.size c.disk + 1) := by
      rw [← funext hext.declarations_eq]
      exact (Project.suffices_size ..).mono (Nat.le_succ _)
    have hsuffices₀ : PayloadRules.Suffices (p₀.declarations c.disk c.languages)
        (p₀.size c.disk + 1) := (Project.suffices_size ..).mono (Nat.le_succ _)
    have hrun := run (q (p.size s.disk + 1)) hcoherent hr
    rw [classesOf, hfresh, Except.map, Inquiry.answerIn_ok, h.disk_eq,
      hq _ _ _ hsuffices hsuffices₀] at hrun
    rw [hfresh, ok_bind]
    exact ⟨by rw [perform_bind_ok ht, h.disk_eq]; exact hrun.result_eq,
      by rw [perform_bind_ok ht, h.disk_eq]; exact hrun.coherent⟩

/-- The facts about a method are those that a session that has just started gathers. -/
theorem methodFacts {className methodName : String} (h : Coherent c s)
    (hr : Path.resolve c.directory r = root) :
    Yields c (ask r (.methodFacts className methodName))
      (factsFor c ⟨root, className, methodName⟩) s := by
  have hs : Path.resolve s.directory r = root := h.directory_eq ▸ hr
  cases hkept : keptResult s.context s.memory ⟨root, className, methodName⟩ with
  | some facts =>
    obtain ⟨notes, hp⟩ := perform_methodFacts_kept hs hkept
    obtain ⟨e, he, rfl⟩ := Option.map_eq_some_iff.1 hkept
    rw [h.result _ e (Option.filter_eq_some_iff.1 he).1]
    exact .of_eq hp (h.notes notes)
  | none =>
    -- The method is looked up under the resolved root, which resolves to itself.
    have hroot : Path.resolve c.directory root = root := by rw [← hr, Path.resolve_resolve]
    obtain ⟨hanswer, hcoherent⟩ := run (Inquiry.findMethod className methodName) h hroot
    rcases hrun : perform (Session.run root (Inquiry.findMethod className methodName)) s with
      ⟨f | found, t⟩
    · rw [hrun] at hanswer hcoherent
      rw [factsFor, ← hanswer]
      exact .of_eq (perform_methodFacts_run_error hs hkept hrun) hcoherent
    · rw [hrun] at hanswer hcoherent
      have hexpected : factsFor c ⟨root, className, methodName⟩ = factsOf s.rules found := by
        rw [factsFor, ← hanswer, h.rules_eq]
        rfl
      rw [hexpected]
      cases hfacts : factsOf s.rules found with
      | error f =>
        obtain ⟨notes, hp⟩ := perform_methodFacts_error hs hkept hrun hfacts
        exact .of_eq hp (hcoherent.notes notes)
      | ok facts =>
        obtain ⟨notes, hp⟩ := perform_methodFacts hs hkept hrun hfacts
        exact .of_eq hp ((hcoherent.put (hexpected.trans hfacts)).notes notes)

theorem reading {f : SessionRules → Action α} {x : Except Fault α} (h : Coherent c s)
    (hf : Yields c (f c.rules) x s) : Yields c (do f (← get).rules) x s := by
  rw [← h.rules_eq] at hf
  exact hf.congr (perform_bind_ok (perform_get s))

end Yields

/-- A query has one answer in all coherent sessions, and leaves them coherent. -/
theorem exists_answer (c : Context) (r : Path) (q : Query) :
    ∃ x, ∀ s, Coherent c s → Yields c (ask r q) x s := by
  cases q with
  | methodFacts className methodName => exact ⟨_, fun s h => .methodFacts h rfl⟩
  | payload className depth =>
    cases hrules : PayloadRules.ofConfig c.rules.config with
    | error f =>
      refine ⟨.error f, fun s h => .of_eq ?_ h⟩
      rw [ask, samplePayload, perform_bind_ok (perform_get s), h.rules_eq, hrules]
      exact perform_bind_error (perform_lift _ s)
    | ok rules =>
      have hlimited (s : Session) (h : Coherent c s) := Yields.limited h (r := r) rfl
        (fun classes _ _ hl hl' => synthesize_congr hl hl' rules className depth)
      refine ⟨_, fun s h => (hlimited s h).congr ?_⟩
      rw [ask, samplePayload, perform_bind_ok (perform_get s), h.rules_eq, hrules]
      exact perform_bind_ok (perform_lift _ s)
  | handlerPayloads className methodName =>
    exact ⟨_, fun s h => .reading (f := fun rules => do
      run r (handlerPayloads rules.config (← classLimit r) className methodName)) h
      (.limited h rfl fun classes _ _ hl hl' =>
        handlerPayloads_congr hl hl' c.rules.config className methodName)⟩
  | classOf className => exact ⟨_, fun s h => .run _ h rfl⟩
  | declarationsOf className => exact ⟨_, fun s h => .run _ h rfl⟩
  | firstServiceCall className methodName => exact ⟨_, fun s h => .run _ h rfl⟩
  | serviceCalls className methodName => exact ⟨_, fun s h => .run _ h rfl⟩
  | complexity className methodName => exact ⟨_, fun s h => .run _ h rfl⟩
  | loopFetches className methodName =>
    exact ⟨_, fun s h => .reading (f := fun rules =>
      run r (methodLoopFinding rules.config className methodName)) h (.run _ h rfl)⟩
  | exception className =>
    exact ⟨_, fun s h => .reading (f := fun rules =>
      run r (classException (.ok rules.exceptions) className)) h (.run _ h rfl)⟩
  | auth className methodName =>
    exact ⟨_, fun s h => .reading (f := fun rules =>
      run r (handlerAuth (.ok rules.auth) className methodName)) h (.run _ h rfl)⟩
  | apiDocs className methodName =>
    exact ⟨_, fun s h => .reading (f := fun rules =>
      run r (handlerDocs (.ok rules.docs) className methodName)) h (.run _ h rfl)⟩

/-! ## Runs -/

theorem Coherent.invalidate (h : Coherent c s) (r : Path) :
    Coherent c ((Step.invalidate r).apply s) := by
  obtain ⟨hcontext, hmemory⟩ := apply_invalidate (s := s) (r := r) rfl
  have hnow : ((Step.invalidate r).apply s).now = s.now := congrArg Context.now hcontext
  refine ⟨by rw [hcontext, hnow, h.context_eq], fun key p hp => ?_, fun root => ?_,
    fun key e he => ?_⟩
  · rw [hmemory] at hp
    exact h.project key p (Option.ite_none_left_eq_some.1 hp).2
  · rw [hcontext, hmemory]
    by_cases hroot : root = Path.resolve s.directory r
    · exact placed_of_forgotten (fun _ => if_pos hroot) (fun _ => if_pos hroot)
    · exact (h.placed root).congr rfl (fun _ => if_neg hroot) (fun _ => if_neg hroot)
  · rw [hmemory] at he
    exact h.result key e (Option.ite_none_left_eq_some.1 he).2

/-- A step that leaves the disk alone keeps the memory coherent. -/
theorem Coherent.apply {e : Step} (h : Coherent c s) (he : e.leavesDisk = true) :
    Coherent c (e.apply s) := by
  cases e with
  | ask r q =>
    obtain ⟨x, hx⟩ := exists_answer c r q
    exact (hx s h).coherent
  | openProject r =>
    rw [Step.apply, perform_bind_ok (perform_resolveRoot rfl)]
    exact Yields.project h _
  | invalidate r => exact h.invalidate r
  | clearResults =>
    exact ⟨h.context_eq, h.project,
      fun root => (h.placed root).congr rfl (fun _ => rfl) (fun _ => rfl),
      fun _ _ he => by cases he⟩
  | advance seconds =>
    refine ⟨?_, h.project, fun root => (h.placed root).congr rfl (fun _ => rfl) (fun _ => rfl),
      h.result⟩
    rw [context_apply, h.context_eq]
    rfl
  | write path bytes => cases he
  | delete path => cases he

theorem Coherent.after {steps : List Step} (h : Coherent c s)
    (hsteps : ∀ e ∈ steps, e.leavesDisk = true) : Coherent c (s.after steps) := by
  induction steps generalizing s with
  | nil => exact h
  | cons e steps ih =>
    exact ih (h.apply (hsteps e List.mem_cons_self))
      fun e' he' => hsteps e' (List.mem_cons_of_mem _ he')

theorem coherent_of_empty (hcontext : s.context = { c with now := s.now })
    (hempty : s.memory = .empty) : Coherent c s := by
  refine ⟨hcontext, ?_, ?_, ?_⟩
  · rw [hempty]
    rintro key p ⟨⟩
  · rw [hempty]
    exact fun root => placed_of_forgotten (fun _ => rfl) (fun _ => rfl)
  · rw [hempty]
    rintro key e ⟨⟩

variable {config : Config} {directory : Path} {disk : Disk} {now : Binary64}

/-- While no file changes, every answer is the one that a session gives to this query alone when it
starts, whatever was asked, dropped or waited for before. -/
theorem answer_eq_fresh (hstart : start config directory disk now = .ok s) (steps : List Step)
    (hsteps : ∀ e ∈ steps, e.leavesDisk = true) (now' : Binary64) :
    ∃ fresh, start config directory disk now' = .ok fresh ∧
      ∀ root q, (perform (ask root q) (s.after steps)).1 = (perform (ask root q) fresh).1 := by
  obtain ⟨fresh, hfresh, hempty, hcontext⟩ := start_again hstart disk now'
  have hdisk := (views_of_start hstart).2.1
  have hnow : fresh.now = now' := congrArg Context.now hcontext
  refine ⟨fresh, hfresh, fun root q => ?_⟩
  have hold : Coherent s.context (s.after steps) :=
    (coherent_of_empty rfl (views_of_start hstart).2.2).after hsteps
  have hnew : Coherent s.context fresh :=
    coherent_of_empty (by rw [hnow, hcontext, ← hdisk]; rfl) hempty
  -- One answer for all coherent sessions, so the two of them share it.
  obtain ⟨x, hx⟩ := exists_answer s.context root q
  rw [(hx _ hold).result_eq, (hx _ hnew).result_eq]

end Session

end

namespace Session

/-- A payload after look-ups, kept facts, a wait and two drops is the one of a session that starts
later, and there is one. -/
theorem answer_eq_fresh_payload :
    let root : Path := ⟨"/", ["app"]⟩
    let steps : List Step :=
      [.ask root (.classOf "A"), .ask root (.methodFacts "A" "f"), .advance .one,
        .ask root (.methodFacts "A" "f"), .clearResults, .openProject ⟨"/", ["lib"]⟩,
        .invalidate ⟨"/", ["lib"]⟩, .ask root (.declarationsOf "A")]
    ∃ s fresh, start .default ⟨"/", []⟩
        ⟨[(["app", "src", "m.py"], "class A: x: int".toUTF8.toList)], []⟩ (.zero false) = .ok s ∧
      start .default ⟨"/", []⟩
        ⟨[(["app", "src", "m.py"], "class A: x: int".toUTF8.toList)], []⟩ .one = .ok fresh ∧
      (perform (ask root (.payload "A" none)) (s.after steps)).1.toOption.join.isSome = true ∧
      (perform (ask root (.payload "A" none)) (s.after steps)).1 =
        (perform (ask root (.payload "A" none)) fresh).1 := by
  intro root steps
  obtain ⟨s, hs, hcheck⟩ := exists_start_of_any .default ⟨"/", []⟩
    ⟨[(["app", "src", "m.py"], "class A: x: int".toUTF8.toList)], []⟩ (.zero false) (fun s =>
      (perform (ask root (.payload "A" none)) (s.after steps)).1.toOption.join.isSome)
    (by decide +kernel)
  obtain ⟨fresh, hfresh, h⟩ := answer_eq_fresh hs steps (by decide) .one
  exact ⟨s, fresh, hs, hfresh, hcheck, h root (.payload "A" none)⟩

end Session

end RouteLens
