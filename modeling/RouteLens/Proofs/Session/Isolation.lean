import RouteLens.Proofs.Session.Steps

/-!
# Roots do not see each other

Two sessions that agree on one root give the same answers about it and go on agreeing on it
(`Matches.ask`).  A root that was just dropped agrees with a session that starts now, and steps
about other roots cannot be seen from it.
-/

namespace RouteLens

section

variable {edition : Nat} [CharacterNames edition]

namespace Session

variable {α β : Type} {root r : Path} {s t : Session} {name : String}

namespace Memory.AgreeOn

variable {roots : Path → Prop} {m m' : Memory}

theorem keep_congr (h : AgreeOn roots m m') (key : ProjectKey) (p : Project) :
    AgreeOn roots (m.keep key p) (m'.keep key p) := by
  refine ⟨fun k hk => ?_, h.place_eq, h.result_eq⟩
  simp only [Memory.keep, Function.update_apply, h.project_eq k hk]

theorem setPlace_congr (h : AgreeOn roots m m') (key : ClassKey) (place : Option Path) :
    AgreeOn roots (m.setPlace key place) (m'.setPlace key place) := by
  refine ⟨h.project_eq, fun k hk => ?_, h.result_eq⟩
  simp only [Memory.setPlace, Function.update_apply, h.place_eq k hk]

theorem setResult_congr (h : AgreeOn roots m m') (key : ResultKey)
    (e : Binary64 × Option MethodFacts) :
    AgreeOn roots (m.setResult key e) (m'.setResult key e) := by
  refine ⟨h.project_eq, h.place_eq, fun k hk => ?_⟩
  simp only [Memory.setResult, Function.update_apply, h.result_eq k hk]

theorem drop_congr (h : AgreeOn roots m m') (root : Path) :
    AgreeOn roots (m.drop root) (m'.drop root) := by
  refine ⟨fun k hk => ?_, fun k hk => ?_, fun k hk => ?_⟩
  · simp only [Memory.drop, h.project_eq k hk]
  · simp only [Memory.drop, h.place_eq k hk]
  · simp only [Memory.drop, h.result_eq k hk]

end Memory.AgreeOn

theorem AgreeOn.projectOf_eq (h : AgreeOn (· = root) s t) :
    projectOf s.context s.memory root = projectOf t.context t.memory root := by
  have hproject (build : Option Path) :
      s.memory.project ⟨root, build⟩ = t.memory.project ⟨root, build⟩ :=
    h.memory.project_eq ⟨root, build⟩ rfl
  simp only [projectOf, h.context_eq, hproject]

theorem AgreeOn.of_turns_turns {roots : Path → Prop} {m m' : Memory} {i j i' j' : Nat}
    {s' t' : Session} (h : AgreeOn roots s t) (hs : Turns s m i j s') (ht : Turns t m' i' j' t')
    (hm : Memory.AgreeOn roots m m') : AgreeOn roots s' t' :=
  ⟨hs.context_eq.trans (h.context_eq.trans ht.context_eq.symm), by
    rwa [hs.memory_eq, ht.memory_eq]⟩

/-! ## Matching actions -/

/-- An action has the same result in two sessions, and they agree on a root afterwards. -/
structure Matches (root : Path) (a : Action α) (s t : Session) : Prop where
  result_eq : (perform a s).1 = (perform a t).1
  agree : AgreeOn (· = root) (perform a s).2 (perform a t).2

namespace Matches

theorem of_eq {a : Action α} {x : Except Fault α} {s' t' : Session}
    (hs : perform a s = (x, s')) (ht : perform a t = (x, t')) (h : AgreeOn (· = root) s' t') :
    Matches root a s t :=
  ⟨by rw [hs, ht], by rw [hs, ht]; exact h⟩

theorem bind {a : Action α} {f : α → Action β} (h : Matches root a s t)
    (hf : ∀ x s' t', perform a s = (.ok x, s') → AgreeOn (· = root) s' t' →
      Matches root (f x) s' t') :
    Matches root (a >>= f) s t := by
  obtain ⟨hresult, hagree⟩ := h
  rcases hs : perform a s with ⟨x | x, s'⟩ <;> rcases ht : perform a t with ⟨y | y, t'⟩
  all_goals rw [hs, ht] at hresult hagree; cases hresult
  · exact .of_eq (perform_bind_error hs) (perform_bind_error ht) hagree
  · have hnext := hf x s' t' hs hagree
    exact ⟨by rw [perform_bind_ok hs, perform_bind_ok ht, hnext.result_eq],
      by rw [perform_bind_ok hs, perform_bind_ok ht]; exact hnext.agree⟩

theorem findClass (h : AgreeOn (· = root) s t) (hs : Path.resolve s.directory r = root) :
    Matches root (findClass r name) s t := by
  have ht : Path.resolve t.directory r = root := h.directory_eq ▸ hs
  cases hp : projectOf s.context s.memory root with
  | error f =>
    exact .of_eq (perform_findClass_error hs hp)
      (perform_findClass_error ht (h.projectOf_eq ▸ hp)) h
  | ok kp =>
    obtain ⟨s', hs', hturn⟩ := perform_findClass name hs hp
    obtain ⟨t', ht', hturn'⟩ := perform_findClass name ht (h.projectOf_eq ▸ hp)
    rw [h.disk_eq, h.languages_eq, h.memory.place_eq ⟨root, name⟩ rfl] at hs' hturn
    exact .of_eq hs' ht' (h.of_turns_turns hturn hturn'
      ((h.memory.keep_congr _ _).setPlace_congr _ _))

theorem findDeclarations (h : AgreeOn (· = root) s t) (hs : Path.resolve s.directory r = root) :
    Matches root (findDeclarations r name) s t := by
  have ht : Path.resolve t.directory r = root := h.directory_eq ▸ hs
  cases hp : projectOf s.context s.memory root with
  | error f =>
    exact .of_eq (perform_findDeclarations_error hs hp)
      (perform_findDeclarations_error ht (h.projectOf_eq ▸ hp)) h
  | ok kp =>
    obtain ⟨s', hs', hturn⟩ := perform_findDeclarations name hs hp
    obtain ⟨t', ht', hturn'⟩ := perform_findDeclarations name ht (h.projectOf_eq ▸ hp)
    rw [h.disk_eq, h.languages_eq] at hs' hturn
    exact .of_eq hs' ht' (h.of_turns_turns hturn hturn' (h.memory.keep_congr _ _))

theorem project (h : AgreeOn (· = root) s t) : Matches root (project root) s t := by
  cases hp : projectOf s.context s.memory root with
  | error f =>
    exact .of_eq (perform_project_error hp) (perform_project_error (h.projectOf_eq ▸ hp)) h
  | ok kp =>
    obtain ⟨s', hs', hturn⟩ := perform_project hp
    obtain ⟨t', ht', hturn'⟩ := perform_project (h.projectOf_eq ▸ hp)
    exact .of_eq hs' ht' (h.of_turns_turns hturn hturn' (h.memory.keep_congr _ _))

theorem run (q : Inquiry α) (h : AgreeOn (· = root) s t) (hs : Path.resolve s.directory r = root) :
    Matches root (run r q) s t := by
  induction q generalizing s t with
  | done a => exact .of_eq rfl rfl h
  | fail f => exact .of_eq rfl rfl h
  | find name next ih =>
    refine (findClass h hs).bind fun c s' t' hs' h' => ih c h' ?_
    rw [← hs, ((fullyClosed_agreeOn root).findClass s r name hs).directory_eq, hs']
  | declarations name next ih =>
    refine (findDeclarations h hs).bind fun cs s' t' hs' h' => ih cs h' ?_
    rw [← hs, ((fullyClosed_agreeOn root).findDeclarations s r name hs).directory_eq, hs']
  | note n next ih =>
    have hnote : Matches root (leaveNotes [n]) s t := .of_eq rfl rfl ⟨h.context_eq, h.memory⟩
    refine hnote.bind fun _ s' t' hs' h' => ih h' ?_
    cases hs'
    exact hs

theorem classLimit (h : AgreeOn (· = root) s t) (hs : Path.resolve s.directory r = root) :
    Matches root (classLimit r) s t := by
  have ht : Path.resolve t.directory r = root := h.directory_eq ▸ hs
  cases hp : projectOf s.context s.memory root with
  | error f =>
    exact .of_eq (perform_classLimit_error hs hp)
      (perform_classLimit_error ht (h.projectOf_eq ▸ hp)) h
  | ok kp =>
    obtain ⟨s', hs', hturn⟩ := perform_classLimit hs hp
    obtain ⟨t', ht', hturn'⟩ := perform_classLimit ht (h.projectOf_eq ▸ hp)
    rw [h.disk_eq] at hs'
    exact .of_eq hs' ht' (h.of_turns_turns hturn hturn' (h.memory.keep_congr _ _))

theorem limited (q : Nat → Inquiry α) (h : AgreeOn (· = root) s t)
    (hs : Path.resolve s.directory r = root) :
    Matches root (do Session.run r (q (← Session.classLimit r))) s t := by
  refine (classLimit h hs).bind fun limit s' t' hs' h' => run (q limit) h' ?_
  rw [← hs, ((fullyClosed_agreeOn root).classLimit hs).directory_eq, hs']

/-- Sessions that agree on a root give the same facts about its methods. -/
theorem methodFacts {c m : String} (h : AgreeOn (· = root) s t)
    (hs : Path.resolve s.directory r = root) :
    Matches root (ask r (.methodFacts c m)) s t := by
  have ht : Path.resolve t.directory r = root := h.directory_eq ▸ hs
  have hkept : keptResult s.context s.memory ⟨root, c, m⟩ =
      keptResult t.context t.memory ⟨root, c, m⟩ := by
    simp only [keptResult, h.context_eq, h.memory.result_eq ⟨root, c, m⟩ rfl]
  cases hresult : keptResult s.context s.memory ⟨root, c, m⟩ with
  | some facts =>
    obtain ⟨notes, hs'⟩ := perform_methodFacts_kept hs hresult
    obtain ⟨notes', ht'⟩ := perform_methodFacts_kept ht (hkept ▸ hresult)
    exact .of_eq hs' ht' ⟨h.context_eq, h.memory⟩
  | none =>
    have hresult' := hkept ▸ hresult
    have hroot : Path.resolve s.directory root = root := by rw [← hs, Path.resolve_resolve]
    obtain ⟨hfound, hagree⟩ := run (Inquiry.findMethod c m) h hroot
    rcases hrun : perform (Session.run root (Inquiry.findMethod c m)) s with ⟨f | found, s'⟩ <;>
      rcases hrun' : perform (Session.run root (Inquiry.findMethod c m)) t with ⟨g | found', t'⟩
    all_goals rw [hrun, hrun'] at hfound hagree; cases hfound
    · exact .of_eq (perform_methodFacts_run_error hs hresult hrun)
        (perform_methodFacts_run_error ht hresult' hrun') hagree
    · cases hfacts : factsOf s.rules found with
      | error f =>
        obtain ⟨notes, hp⟩ := perform_methodFacts_error hs hresult hrun hfacts
        obtain ⟨notes', hp'⟩ := perform_methodFacts_error ht hresult' hrun' (h.rules_eq ▸ hfacts)
        exact .of_eq hp hp' ⟨hagree.context_eq, hagree.memory⟩
      | ok facts =>
        obtain ⟨notes, hp⟩ := perform_methodFacts hs hresult hrun hfacts
        obtain ⟨notes', hp'⟩ := perform_methodFacts ht hresult' hrun' (h.rules_eq ▸ hfacts)
        have hput : Memory.AgreeOn (· = root)
            (memory { s' with results := s'.results.put s'.now ⟨root, c, m⟩ facts })
            (memory { t' with results := t'.results.put t'.now ⟨root, c, m⟩ facts }) := by
          rw [memory_put, memory_put, hagree.now_eq]
          exact hagree.memory.setResult_congr _ _
        exact .of_eq hp hp' ⟨hagree.context_eq, hput⟩

theorem reading (f : SessionRules → Action α) (h : AgreeOn (· = root) s t)
    (hf : Matches root (f s.rules) s t) : Matches root (do f (← get).rules) s t := by
  refine ⟨?_, ?_⟩
  · rw [perform_bind_ok (perform_get s), perform_bind_ok (perform_get t), ← h.rules_eq]
    exact hf.result_eq
  · rw [perform_bind_ok (perform_get s), perform_bind_ok (perform_get t), ← h.rules_eq]
    exact hf.agree

/-- A query about a root on which two sessions agree has one answer in both. -/
theorem ask (q : Query) (h : AgreeOn (· = root) s t) (hs : Path.resolve s.directory r = root) :
    Matches root (ask r q) s t := by
  cases q with
  | methodFacts c m => exact methodFacts h hs
  | payload c depth =>
    refine reading (fun rules => do
      let p ← PayloadRules.ofConfig rules.config
      Session.run r (synthesize p (← Session.classLimit r) c depth)) h ?_
    have hrules : Matches root (liftM (PayloadRules.ofConfig s.rules.config)) s t :=
      .of_eq (perform_lift _ s) (perform_lift _ t) h
    refine hrules.bind fun rules s' t' hs' h' => ?_
    rw [perform_lift] at hs'
    obtain ⟨-, rfl⟩ := Prod.mk.inj hs'
    exact limited (fun limit => synthesize rules limit c depth) h' hs
  | handlerPayloads c m =>
    exact reading
      (fun rules => do Session.run r (handlerPayloads rules.config (← Session.classLimit r) c m)) h
      (limited (fun limit => handlerPayloads s.rules.config limit c m) h hs)
  | classOf c => exact run _ h hs
  | declarationsOf c => exact run _ h hs
  | firstServiceCall c m => exact run _ h hs
  | serviceCalls c m => exact run _ h hs
  | complexity c m => exact run _ h hs
  | loopFetches c m =>
    exact reading (fun rules => Session.run r (methodLoopFinding rules.config c m)) h (run _ h hs)
  | exception c =>
    exact reading (fun rules => Session.run r (classException (.ok rules.exceptions) c)) h
      (run _ h hs)
  | auth c m =>
    exact reading (fun rules => Session.run r (handlerAuth (.ok rules.auth) c m)) h (run _ h hs)
  | apiDocs c m =>
    exact reading (fun rules => Session.run r (handlerDocs (.ok rules.docs) c m)) h (run _ h hs)

end Matches

/-! ## Runs -/

/-- Whether a step can matter for a root: it is about the root, or about no root. -/
def Step.concerns (directory root : Path) (e : Step) : Bool :=
  e.root?.all fun r => Path.resolve directory r = root

/-- A step that is taken in both sessions keeps them in agreement. -/
theorem AgreeOn.apply {e : Step} (h : AgreeOn (· = root) s t)
    (he : e.concerns s.directory root = true) :
    AgreeOn (· = root) (e.apply s) (e.apply t) := by
  cases e with
  | ask r q =>
    have hs : Path.resolve s.directory r = root := of_decide_eq_true he
    exact (Matches.ask q h hs).agree
  | openProject r =>
    have hs : Path.resolve s.directory r = root := of_decide_eq_true he
    have ht : Path.resolve t.directory r = root := h.directory_eq ▸ hs
    simp only [Step.apply]
    rw [perform_bind_ok (perform_resolveRoot hs), perform_bind_ok (perform_resolveRoot ht)]
    exact (Matches.project h).agree
  | invalidate r =>
    have hs : Path.resolve s.directory r = root := of_decide_eq_true he
    have ht : Path.resolve t.directory r = root := h.directory_eq ▸ hs
    obtain ⟨hcontext, hmemory⟩ := apply_invalidate hs
    obtain ⟨hcontext', hmemory'⟩ := apply_invalidate ht
    exact ⟨by rw [hcontext, hcontext', h.context_eq], by
      rw [hmemory, hmemory']
      exact h.memory.drop_congr root⟩
  | clearResults =>
    exact ⟨h.context_eq, h.memory.project_eq, h.memory.place_eq, fun _ _ => rfl⟩
  | advance seconds =>
    exact ⟨by rw [context_apply, context_apply, h.context_eq], h.memory⟩
  | write path bytes =>
    exact ⟨by rw [context_apply, context_apply, h.context_eq], h.memory⟩
  | delete path =>
    exact ⟨by rw [context_apply, context_apply, h.context_eq], h.memory⟩

/-- A step about another root cannot be seen. -/
theorem AgreeOn.apply_left {e : Step} (h : AgreeOn (· = root) s t)
    (he : e.concerns s.directory root = false) : AgreeOn (· = root) (e.apply s) t := by
  cases hroot : e.root? with
  | none => simp [Step.concerns, hroot] at he
  | some r =>
    have hne : Path.resolve s.directory r ≠ root := by simpa [Step.concerns, hroot] using he
    have hspared := agreeOn_apply hroot s
    have hsame : AgreeOn (· = root) s (e.apply s) :=
      ⟨hspared.context_eq, hspared.memory.mono fun x hx => hx ▸ hne.symm⟩
    exact hsame.symm.trans h

/-- A whole run agrees with the run of the steps that concern the root. -/
theorem AgreeOn.after (h : AgreeOn (· = root) s t) (steps : List Step) :
    AgreeOn (· = root) (s.after steps)
      (t.after (steps.filter (·.concerns s.directory root))) := by
  induction steps generalizing s t with
  | nil => exact h
  | cons e steps ih =>
    -- Which steps concern the root depends on the working directory, and no step changes that.
    have hdirectory := directory_apply e s
    rw [after_cons, ← hdirectory]
    cases he : e.concerns (e.apply s).directory root with
    | true =>
      rw [List.filter_cons_of_pos he]
      exact ih (h.apply (hdirectory ▸ he))
    | false =>
      rw [List.filter_cons_of_neg (by simp [he])]
      exact ih (h.apply_left (hdirectory ▸ he))

variable {config : Config} {directory : Path} {disk : Disk} {now : Binary64}

/-- After a root is dropped, every answer about it is that of a session which starts now, sees the
same changes of files and clock, and takes only the steps that concern the root. -/
theorem answer_after_invalidate (hstart : start config directory disk now = .ok s)
    (before : List Step) (root : Path) :
    ∃ fresh, start config directory (s.after before).disk (s.after before).now = .ok fresh ∧
      ∀ later r q, Path.resolve directory r = Path.resolve directory root →
        (perform (ask r q) (s.after (before ++ .invalidate root :: later))).1 =
          (perform (ask r q) (fresh.after
            (later.filter (·.concerns directory (Path.resolve directory root))))).1 := by
  obtain ⟨fresh, hfresh, hempty, hcontext⟩ :=
    start_again hstart (s.after before).disk (s.after before).now
  refine ⟨fresh, hfresh, fun later r q hr => ?_⟩
  rw [after_append, after_cons]
  have hdirectory : (s.after before).directory = directory :=
    (directory_after before s).trans (views_of_start hstart).1
  obtain ⟨hcontext', hmemory⟩ := apply_invalidate (s := s.after before) (r := root) rfl
  rw [hdirectory] at hmemory
  -- Right after the drop, the memory of the root is empty in both sessions.
  have hagree : AgreeOn (· = Path.resolve directory root)
      ((Step.invalidate root).apply (s.after before)) fresh := by
    refine ⟨by rw [hcontext', hcontext, context_after_eq], ?_⟩
    rw [hmemory, hempty]
    exact ⟨fun _ hk => if_pos hk, fun _ hk => if_pos hk, fun _ hk => if_pos hk⟩
  have hdirectory' : ((Step.invalidate root).apply (s.after before)).directory = directory :=
    hagree.directory_eq.trans (views_of_start hfresh).1
  have hrun := hagree.after later
  rw [hdirectory'] at hrun
  exact (Matches.ask q hrun (by rw [directory_after, hdirectory', hr])).result_eq

end Session

end

namespace Session

/-- A class is asked for before its file declares it; the root is dropped, and the file rewritten.
After that the class is there, and steps about another root make no difference. -/
theorem answer_after_invalidate_rewritten :
    let root : Path := ⟨"/", ["app"]⟩
    let before : List Step := [.ask root (.classOf "A"), .advance .one]
    let rewrite : Step := .write ⟨"/", ["app", "src", "m.py"]⟩ "class A: 0".toUTF8.toList
    ∃ s fresh, start .default ⟨"/", []⟩ ⟨[(["app", "src", "m.py"], [])], []⟩ (.zero false) = .ok s ∧
      start .default ⟨"/", []⟩ (s.after before).disk (s.after before).now = .ok fresh ∧
      (perform (ask ⟨"", ["app"]⟩ (.classOf "A"))
        (s.after (before ++ .invalidate ⟨"", ["lib", "..", "app"]⟩ ::
          [rewrite, .ask ⟨"/", ["lib"]⟩ (.classOf "A"), .ask root (.payload "A" none)]))).1 =
        (perform (ask ⟨"", ["app"]⟩ (.classOf "A"))
          (fresh.after [rewrite, .ask root (.payload "A" none)])).1 ∧
      (perform (ask ⟨"", ["app"]⟩ (.classOf "A"))
        (s.after (before ++ .invalidate ⟨"", ["lib", "..", "app"]⟩ ::
          [rewrite, .ask ⟨"/", ["lib"]⟩ (.classOf "A"),
            .ask root (.payload "A" none)]))).1.toOption.join.isSome = true := by
  intro root before rewrite
  obtain ⟨s, hs, hcheck⟩ := exists_start_of_any .default ⟨"/", []⟩
    ⟨[(["app", "src", "m.py"], [])], []⟩ (.zero false) (fun s =>
      (perform (ask ⟨"", ["app"]⟩ (.classOf "A"))
        (s.after (before ++ .invalidate ⟨"", ["lib", "..", "app"]⟩ ::
          [rewrite, .ask ⟨"/", ["lib"]⟩ (.classOf "A"),
            .ask root (.payload "A" none)]))).1.toOption.join.isSome)
    (by decide +kernel)
  obtain ⟨fresh, hfresh, h⟩ := answer_after_invalidate hs before ⟨"", ["lib", "..", "app"]⟩
  exact ⟨s, fresh, hs, hfresh, h _ ⟨"", ["app"]⟩ (.classOf "A") (by decide), hcheck⟩

end Session

end RouteLens
