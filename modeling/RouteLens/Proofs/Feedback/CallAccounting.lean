import RouteLens.Feedback
import RouteLens.Proofs.Analysis.CallViews
import RouteLens.Proofs.Session.LookUps
import RouteLens.Proofs.Session.Snapshots

/-!
# The findings about collaborators, call by call

The findings on the side of the collaborators are accounted for by the calls that were traced.  Each
call makes its own part of them, in the order of the trace (`Contributes`); apart from these there
is one note for each name that several files declare, however many calls go there (`Accounts`).

`callIssues` goes through the calls with the findings so far.  One call keeps the account
(`Accounts.step`), and so do all of them (`accounts_callIssues`).  What the look-ups give is fixed
for the whole report, since they do not get in each other's way; therefore the account holds in
every session (`serviceIssues_accounted`).

The only way not to get the findings is a configuration whose names of fetches cannot be read.
-/

namespace RouteLens

section

variable {edition : Nat} [CharacterNames edition]

namespace Inquiry

variable {α β : Type} (find : String → Option ClassDecl) (all : String → List ClassDecl)

@[simp] theorem resolve_pure (a : α) : (pure a : Inquiry α).resolve find all = .ok a := rfl

@[simp] theorem resolve_seq (q : Inquiry α) (f : α → Inquiry β) :
    (q >>= f).resolve find all = q.resolve find all >>= fun a => (f a).resolve find all := by
  change (q.bind f).resolve find all = _
  induction q with
  | done a => rfl
  | fail f => rfl
  | find name next ih => exact ih _
  | declarations name next ih => exact ih _
  | note n next ih => exact ih

@[simp] theorem resolve_lift (e : Except Fault α) :
    (liftM e : Inquiry α).resolve find all = e := by
  cases e <;> rfl

@[simp] theorem resolve_findClass (name : String) :
    (findClass name).resolve find all = .ok (find name) := rfl

@[simp] theorem resolve_findDeclarations (name : String) :
    (findDeclarations name).resolve find all = .ok (all name) := rfl

@[simp] theorem resolve_leave (n : Note) : (leave n).resolve find all = .ok () := rfl

end Inquiry

/-! ## Lists without later repetitions -/

namespace KeepsFirsts

variable {α : Type} [DecidableEq α] {xs ys : List α}

/-- One more member is left out if it is there already. -/
theorem concat (h : KeepsFirsts xs ys) (x : α) :
    KeepsFirsts (xs ++ [x]) (ys ++ [x].filter (· ∉ ys)) := by
  have hmem (y : α) : y ∈ ys ↔ y ∈ xs := h.mem_iff y
  have hordered : ys.Pairwise fun a b => (xs ++ [x]).idxOf a < (xs ++ [x]).idxOf b := by
    refine h.ordered.imp_of_mem fun ha hb hab => ?_
    rwa [List.idxOf_append_of_mem ((hmem _).1 ha), List.idxOf_append_of_mem ((hmem _).1 hb)]
  by_cases hx : x ∈ ys
  · rw [List.filter_cons_of_neg (by simpa using hx), List.filter_nil, List.append_nil]
    refine ⟨h.nodup, fun y => ?_, hordered⟩
    rw [List.mem_append, List.mem_singleton, hmem]
    exact ⟨.inl, fun hy => hy.elim id fun hy => hy ▸ (hmem x).1 hx⟩
  · rw [List.filter_cons_of_pos (by simpa using hx), List.filter_nil]
    refine ⟨List.concat_eq_append ▸ h.nodup.concat hx, fun y => by simp [hmem], ?_⟩
    refine List.pairwise_append.2 ⟨hordered, List.pairwise_singleton .., fun a ha b hb => ?_⟩
    obtain rfl := List.mem_singleton.1 hb
    rw [List.idxOf_append_of_mem ((hmem a).1 ha), List.idxOf_append_of_notMem (mt (hmem b).2 hx),
      List.idxOf_cons_self, Nat.add_zero]
    exact List.idxOf_lt_length_of_mem ((hmem a).1 ha)

end KeepsFirsts

/-! ## The account of a call -/

/-- The fetch names that a configuration sets cannot be read, or not all of them. -/
def FetchNames.BreaksOff (c : Config) (f : Fault) : Prop :=
  ofConfig c = .error f ∨ ∃ t, ofConfig c = .ok t ∧ t.broken = some f

/-- The note about a name, given all its declarations. -/
def ambiguityNote (name : String) (declarations : List ClassDecl) : Issue where
  code := "SP905"
  severity := .info
  message := name ++ " is declared in " ++ toString declarations.length ++ " files (" ++
    Text.joinWith ", " (declarations.map fun c => c.unit.path.toText) ++ "); analyzed the first."
  hint := some "Rename one of the classes so the analysis target is unambiguous."

@[simp]
theorem code_ambiguityNote (name : String) (declarations : List ClassDecl) :
    (ambiguityNote name declarations).code = "SP905" := rfl

/-- The calls whose target has a known type: the type and the method. -/
def typedCalls (calls : List ServiceCall) : List (String × String) :=
  calls.filterMap fun c => c.targetType.map fun t => (t, c.method)

section Account

variable (find : String → Option ClassDecl) (all : String → List ClassDecl)

/-- The findings that a call makes, apart from the note about its type: one if its type is not
found, one if the type lacks the method, and else at most one about the complexity and one about a
fetch in a loop. -/
inductive Contributes : String × String → List Issue → Prop
  | noType {type method : String} (htype : find type = none) :
      Contributes (type, method) [unresolved "SP903" ("Service type " ++ type ++
        " declaration not found (static analysis skipped).")]
  | noMethod {type method : String} {c : ClassDecl} (htype : find type = some c)
      (hmethod : c.findMethod? method = none) :
      Contributes (type, method) [unresolved "SP904" ("Service method " ++ type ++ "." ++ method ++
        " not found (static analysis skipped).")]
  | examined {type method : String} {c : ClassDecl} {m : MethodDecl}
      {complexity fetch : Option Issue} (htype : find type = some c)
      (hmethod : c.findMethod? method = some m)
      (hcomplexity : ∀ i ∈ complexity, i.code = "SP100" ∨ i.code = "SP101")
      (hfetch : ∀ i ∈ fetch, i.code = "SP201") :
      Contributes (type, method) (complexity.toList ++ fetch.toList)

/-- Whether a name is found and declared in more than one file. -/
def isAmbiguous (name : String) : Bool :=
  (find name).isSome && decide (2 ≤ (all name).length)

/-- The note that a name needs, if it needs one. -/
def notesFor (name : String) : List Issue :=
  if isAmbiguous find all name then [ambiguityNote name (all name)] else []

/-- Findings are accounted for by a controller and calls: each call makes its part of them, in
order, and each of their names that several files declare has its note once.  There are no other
findings. -/
structure Accounts (controller : String) (calls : List (String × String)) (issues : List Issue) :
    Prop where
  perCall : ∃ parts, List.Forall₂ (Contributes find) calls parts ∧
    issues.filter (·.code ≠ "SP905") = parts.flatten
  perName : KeepsFirsts
    (((controller :: calls.map Prod.fst).filter (isAmbiguous find all)).map fun n =>
      ambiguityNote n (all n))
    (issues.filter (·.code = "SP905"))

end Account

section Resolve

variable {find : String → Option ClassDecl} {all : String → List ClassDecl} {rules : SessionRules}
  {controller type method : String} {calls rest : List (String × String)}
  {issues part : List Issue}

theorem Contributes.code_ne {call : String × String} (h : Contributes find call part) {i : Issue}
    (hi : i ∈ part) : i.code ≠ "SP905" := by
  cases h with
  | noType | noMethod =>
    obtain rfl := List.mem_singleton.1 hi
    simp [unresolved]
  | examined _ _ hcomplexity hfetch =>
    rw [List.mem_append, Option.mem_toList, Option.mem_toList] at hi
    rcases hi with hi | hi
    · rcases hcomplexity i hi with hcode | hcode <;> simp [hcode]
    · simp [hfetch i hi]

theorem notesFor_none (h : find type = none) : notesFor find all type = [] := by
  simp [notesFor, isAmbiguous, h]

theorem resolve_ambiguityIssue {c : ClassDecl} (h : find type = some c) :
    (ambiguityIssue type).resolve find all = .ok (notesFor find all type).head? := by
  simp only [ambiguityIssue, notesFor, isAmbiguous, h, Inquiry.resolve_seq,
    Inquiry.resolve_findDeclarations, ok_bind]
  by_cases hfew : (all type).length < 2
  · simp [hfew, Nat.not_le.2 hfew]
  · simp [hfew, Nat.le_of_not_lt hfew]
    rfl

theorem toList_head?_notesFor : (notesFor find all type).head?.toList = notesFor find all type := by
  unfold notesFor
  split <;> rfl

namespace Accounts

theorem start : Accounts find all controller [] (notesFor find all controller) := by
  unfold notesFor
  by_cases hname : isAmbiguous find all controller
  · rw [if_pos hname]
    refine ⟨⟨[], .nil, rfl⟩, ?_⟩
    rw [List.filter_cons_of_pos hname]
    exact ⟨List.nodup_singleton _, fun _ => Iff.rfl, List.pairwise_singleton ..⟩
  · rw [if_neg hname]
    refine ⟨⟨[], .nil, rfl⟩, ?_⟩
    rw [List.filter_cons_of_neg hname]
    exact ⟨List.nodup_nil, fun _ => Iff.rfl, List.Pairwise.nil⟩

/-- One more call makes its part of the findings, and a note for its type if there was none. -/
theorem step (h : Accounts find all controller calls issues)
    (hpart : Contributes find (type, method) part) :
    Accounts find all controller (calls ++ [(type, method)])
      (issues ++ (notesFor find all type).filter (fun i => !issues.contains i) ++ part) := by
  obtain ⟨⟨parts, hparts, hother⟩, hnotes⟩ := h
  have hnone : part.filter (·.code = "SP905") = [] := by
    simpa using fun i hi => hpart.code_ne hi
  have hpart' : part.filter (·.code ≠ "SP905") = part := by
    simpa using fun i hi => hpart.code_ne hi
  have hnames : (controller :: (calls ++ [(type, method)]).map Prod.fst).filter
      (isAmbiguous find all) = (controller :: calls.map Prod.fst).filter (isAmbiguous find all) ++
        [type].filter (isAmbiguous find all) := by
    rw [List.map_append, ← List.cons_append, List.filter_append]
    rfl
  have hparts' := List.rel_append hparts (.cons hpart .nil)
  by_cases htype : isAmbiguous find all type = true
  · rw [notesFor, if_pos htype]
    -- a note is there already exactly if it is among the notes
    have hkept : ([ambiguityNote type (all type)].filter fun i => !issues.contains i) =
        [ambiguityNote type (all type)].filter (· ∉ issues.filter (·.code = "SP905")) := by
      simp [List.filter_cons]
    refine ⟨⟨parts ++ [part], hparts', ?_⟩, ?_⟩
    · have hextra : ([ambiguityNote type (all type)].filter fun i => !issues.contains i).filter
          (·.code ≠ "SP905") = [] := by
        simp [List.filter_cons]
      rw [List.filter_append, List.filter_append, hother, hextra, hpart', List.append_nil,
        List.flatten_append, List.flatten_singleton]
    · have hextra : ([ambiguityNote type (all type)].filter fun i => !issues.contains i).filter
          (·.code = "SP905") = [ambiguityNote type (all type)].filter fun i =>
            !issues.contains i := by
        simp [List.filter_cons]
      rw [hnames, List.filter_cons_of_pos htype, List.map_append, List.filter_append,
        List.filter_append, hnone, List.append_nil, hextra, hkept]
      exact hnotes.concat _
  · rw [notesFor, if_neg htype, List.filter_nil, List.append_nil]
    refine ⟨⟨parts ++ [part], hparts', ?_⟩, ?_⟩
    · rw [List.filter_append, hother, hpart', List.flatten_append, List.flatten_singleton]
    · rw [hnames, List.filter_cons_of_neg htype, List.filter_nil, List.append_nil,
        List.filter_append, hnone, List.append_nil]
      exact hnotes

end Accounts

/-- The complexity of a method is reported at most once. -/
theorem exists_complexity (l : ComplexityLimits) (type method : String) (score : Int) :
    ∃ complexity : Option Issue, l.issues type method score = complexity.toList ∧
      ∀ i ∈ complexity, i.code = "SP100" ∨ i.code = "SP101" := by
  unfold ComplexityLimits.issues
  by_cases hwarn : l.warn ≤ score
  · exact ⟨some _, if_pos hwarn, by simp⟩
  · by_cases hinfo : l.info ≤ score
    · exact ⟨some _, (if_neg hwarn).trans (if_pos hinfo), by simp⟩
    · exact ⟨none, (if_neg hwarn).trans (if_neg hinfo), by simp⟩

/-- The search for a fetch fails only by the list of names that breaks off. -/
theorem broken_of_findLoopFetch {m : MethodDecl} {t : FetchNames} {f : Fault}
    (h : m.findLoopFetch t = .error f) : t.broken = some f := by
  unfold MethodDecl.findLoopFetch at h
  cases hcall : m.loopCalls.head? with
  | none =>
    rw [hcall] at h
    cases h
  | some c =>
    simp only [hcall] at h
    cases htest : t.test c.name with
    | ok b =>
      rw [htest] at h
      cases h
    | error g =>
      rw [htest] at h
      cases h
      unfold FetchNames.test at htest
      grind

/-- A call to a class that is found makes its part of the findings. -/
theorem exists_part_of_targetIssues (rules : SessionRules) (method : String)
    (all : String → List ClassDecl) {c : ClassDecl} (h : find type = some c) :
    (∃ part, (targetIssues rules type method c).resolve find all = .ok part ∧
        Contributes find (type, method) part) ∨
      ∃ f, (targetIssues rules type method c).resolve find all = .error f ∧
        FetchNames.BreaksOff rules.config f := by
  cases hmethod : c.findMethod? method with
  | none => exact .inl ⟨_, by simp [targetIssues, hmethod], .noMethod h hmethod⟩
  | some m =>
    obtain ⟨complexity, hissues, hcomplexity⟩ :=
      exists_complexity rules.limits type method m.complexity
    simp only [targetIssues, hmethod, methodLoopFinding, Inquiry.findMethod, Inquiry.resolve_seq,
      Inquiry.resolve_findClass, h, ok_bind, Inquiry.resolve_pure, Inquiry.resolve_lift]
    cases hconfig : FetchNames.ofConfig rules.config with
    | error f => exact .inr ⟨f, rfl, .inl hconfig⟩
    | ok t =>
      cases hfetch : m.findLoopFetch t with
      | error f =>
        exact .inr ⟨f, by simp [hfetch], .inr ⟨t, hconfig, broken_of_findLoopFetch hfetch⟩⟩
      | ok found =>
        refine .inl ⟨complexity.toList ++ (found.map fun _ => loopIssue (type ++ "." ++ method)
          ((m.findingOf found).sample.getD "None")).toList, ?_, ?_⟩
        · cases found with
          | none => simp [hfetch, hissues, MethodDecl.findingOf]
          | some call => simp [hfetch, hissues, MethodDecl.findingOf]
        · refine .examined h hmethod hcomplexity ?_
          intro i hi
          obtain ⟨call, -, rfl⟩ := Option.map_eq_some_iff.1 hi
          rfl

/-- The calls that are left keep the account, or the names of fetches cannot be read. -/
theorem accounts_callIssues (h : Accounts find all controller calls issues) :
    (∃ issues', (callIssues rules rest issues).resolve find all = .ok issues' ∧
        Accounts find all controller (calls ++ rest) issues') ∨
      ∃ f, (callIssues rules rest issues).resolve find all = .error f ∧
        FetchNames.BreaksOff rules.config f := by
  induction rest generalizing calls issues with
  | nil => exact .inl ⟨issues, rfl, by simpa using h⟩
  | cons call rest ih =>
    obtain ⟨type, method⟩ := call
    rw [List.append_cons]
    cases hfind : find type with
    | none =>
      -- a type that is not found needs no note, so that the finding is all that is added
      have hpart : Contributes find (type, method) _ := .noType hfind
      have hstep := h.step hpart
      rw [notesFor_none hfind, List.filter_nil, List.append_nil] at hstep
      simpa [callIssues, hfind] using ih hstep
    | some c =>
      simp only [callIssues, Inquiry.resolve_seq, Inquiry.resolve_findClass, hfind, ok_bind,
        resolve_ambiguityIssue hfind, toList_head?_notesFor]
      rcases exists_part_of_targetIssues rules method all hfind with
        ⟨part, hissues, hpart⟩ | ⟨f, hissues, hf⟩
      · rw [hissues]
        exact ih (h.step hpart)
      · rw [hissues]
        exact .inr ⟨f, rfl, hf⟩

/-- A handler whose calls are traced is found, and so is its class. -/
theorem exists_method_of_trace {handler : String} {traced : List ServiceCall}
    (h : (traceServiceCalls controller handler).resolve find all = .ok (some traced)) :
    ∃ c m, find controller = some c ∧ c.findMethod? handler = some m := by
  simp only [traceServiceCalls, entryMethod, Inquiry.resolve_seq, Inquiry.resolve_findClass,
    ok_bind] at h
  cases hclass : find controller with
  | none =>
    rw [hclass] at h
    cases h
  | some c =>
    cases hmethod : c.findMethod? handler with
    | none =>
      simp only [hclass, hmethod] at h
      cases h
    | some m => exact ⟨c, m, rfl, hmethod⟩

/-- The issues of a handler account for every call that is traced, unless the list of fetch names
breaks off. -/
theorem accounts_serviceIssues {handler : String} {traced : List ServiceCall}
    (h : (traceServiceCalls controller handler).resolve find all = .ok (some traced))
    (hcalls : typedCalls traced ≠ []) :
    (∃ issues, (serviceIssues rules controller handler).resolve find all = .ok issues ∧
        Accounts find all controller (typedCalls traced) issues) ∨
      ∃ f, (serviceIssues rules controller handler).resolve find all = .error f ∧
        FetchNames.BreaksOff rules.config f := by
  obtain ⟨c, m, hclass, hmethod⟩ := exists_method_of_trace h
  have hsome : (c.findMethod? handler).isNone = false := by rw [hmethod, Option.isNone_some]
  have hcalls' : (typedCalls traced).isEmpty = false := by simpa using hcalls
  rw [typedCalls] at hcalls'
  simp only [serviceIssues, Inquiry.resolve_seq, Inquiry.resolve_findClass, ok_bind, hclass,
    resolve_ambiguityIssue hclass, toList_head?_notesFor, hsome, Bool.false_eq_true, if_false, h,
    Option.getD_some, hcalls', Inquiry.resolve_lift]
  cases hconfig : FetchNames.ofConfig rules.config with
  | error f => exact .inr ⟨f, rfl, .inl hconfig⟩
  | ok t => exact accounts_callIssues .start

end Resolve

/-! ## In a session -/

/-- Each declaration of a name stands in a file of its own. -/
theorem Project.Orderly.nodup_paths {d : Disk} {ls : Languages} {p : Project} (h : p.Orderly)
    (name : String) : ((p.declarations d ls name).map fun c => c.unit.path).Nodup := by
  have hpaths : (p.declarations d ls name).map (fun c => c.unit.path) =
      p.files.filter fun x => ((p.unitOf d ls x).bind (·.findClass? name)).isSome := by
    rw [Project.declarations, List.filterMap_filterMap, List.map_filterMap,
      ← List.filterMap_eq_filter]
    refine List.filterMap_congr fun x _ => ?_
    cases hclass : (p.unitOf d ls x).bind (·.findClass? name) with
    | none => simp [Option.guard, hclass]
    | some c => simp [Option.guard, hclass, (h.givesFiles.mem_and_path hclass).2]
  rw [hpaths]
  exact h.distinct.filter _

namespace Session

variable {s : Session} {r root : Path}

theorem KeepsOrder.event (h : KeepsOrder s.memory) (e : Event) : KeepsOrder (e.apply s).memory := by
  cases e with
  | step e => exact h.apply e
  | unit r path => exact ((fullyClosed_keepsOrder _).unitAt s r path rfl).2 h
  | units r => exact ((fullyClosed_keepsOrder _).loadAll rfl).2 h
  | register language extensions => exact h

/-- Sessions that come about from a start by events and inquiries of any kind. -/
inductive Arises : Session → Prop
  | start {config : Config} {directory : Path} {disk : Disk} {now : Binary64} {s : Session}
      (h : Session.start config directory disk now = .ok s) : Arises s
  | event {s : Session} (h : Arises s) (e : Event) : Arises (e.apply s)
  | inquiry {s : Session} {α : Type} (h : Arises s) (r : Path) (q : Inquiry α) :
      Arises (perform (run r q) s).2

theorem Arises.keepsOrder (h : Arises s) : KeepsOrder s.memory := by
  induction h with
  | start h => exact keepsOrder_of_start h []
  | event h e ih => exact ih.event e
  | inquiry h r q ih => exact ((fullyClosed_keepsOrder _).run q rfl).2 ih

/-- A trace needs the project of its root. -/
theorem exists_projectOf_of_trace {controller handler : String} {traced : Option (List ServiceCall)}
    (hr : Path.resolve s.directory r = root)
    (h : (perform (ask r (.serviceCalls controller handler)) s).1 = .ok traced) :
    ∃ key p, projectOf s.context s.memory root = .ok (key, p) := by
  cases hp : projectOf s.context s.memory root with
  | ok kp => exact ⟨kp.1, kp.2, rfl⟩
  | error f =>
    have hfail : perform (ask r (.serviceCalls controller handler)) s = (.error f, s) :=
      perform_bind_error (perform_findClass_error hr hp)
    rw [hfail] at h
    cases h

/-- If a handler is found in a session and one of its traced calls has a target type, its findings
on the side of the collaborators are accounted for by the classes and declarations that the session
finds, where each declaration of a name stands in a file of its own.  They are to be had unless the
configuration holds names of fetches that cannot be read. -/
theorem serviceIssues_accounted {controller handler : String} {traced : List ServiceCall}
    (hs : Arises s)
    (htrace : (perform (ask r (.serviceCalls controller handler)) s).1 = .ok (some traced))
    (hcalls : typedCalls traced ≠ []) :
    ∃ find all,
      (∀ name, (perform (ask r (.classOf name)) s).1 = .ok (find name)) ∧
      (∀ name, (perform (ask r (.declarationsOf name)) s).1 = .ok (all name) ∧
        ((all name).map fun c => c.unit.path).Nodup) ∧
      ((∃ issues, (perform (run r (serviceIssues s.rules controller handler)) s).1 = .ok issues ∧
          Accounts find all controller (typedCalls traced) issues) ∨
        ∃ f, (perform (run r (serviceIssues s.rules controller handler)) s).1 = .error f ∧
          FetchNames.BreaksOff s.rules.config f) := by
  obtain ⟨key, p, hp⟩ := exists_projectOf_of_trace rfl htrace
  have horder : p.Orderly := hs.keepsOrder.projectOf hp
  have hrun {α : Type} (q : Inquiry α) := perform_run_eq q rfl hp horder
  refine ⟨classIn s (Path.resolve s.directory r) p, p.declarations s.disk s.languages,
    fun name => hrun _, fun name => ⟨hrun _, horder.nodup_paths name⟩, ?_⟩
  rw [hrun]
  exact accounts_serviceIssues ((hrun _).symm.trans htrace) hcalls

end Session

end

namespace Session

/-- Two calls go to a class that two files declare, as they do the controller; one of them is to a
method that the class lacks.  The type of the call between them is not found. -/
theorem serviceIssues_accounted_shared :
    let root : Path := ⟨"/", ["app"]⟩
    let disk : Disk := ⟨[(["app", "pyproject.toml"], []),
      (["app", "a.py"], ("class H:\n a: A\n b: B\n c: A\n def f(self):\n" ++
        "  self.a.g()\n  self.b.g()\n  self.c.h()\nclass A:\n def g(self): 0").toUTF8.toList),
      (["app", "b.py"], "class A: 0\nclass H: 0".toUTF8.toList)], []⟩
    ∃ s traced find all issues, start .default ⟨"/", []⟩ disk (.zero false) = .ok s ∧
      (perform (ask root (.serviceCalls "H" "f")) s).1 = .ok (some traced) ∧
      typedCalls traced = [("A", "g"), ("B", "g"), ("A", "h")] ∧
      (perform (run root (serviceIssues s.rules "H" "f")) s).1 = .ok issues ∧
      issues.map Issue.code = ["SP905", "SP905", "SP903", "SP904"] ∧
      Accounts find all "H" (typedCalls traced) issues := by
  intro root disk
  let build : Path := ⟨"/", ["app", "pyproject.toml"]⟩
  let p : Project := ⟨root, [⟨"/", ["app", "a.py"]⟩, ⟨"/", ["app", "b.py"]⟩], some build, []⟩
  obtain ⟨s, hs, hcheck⟩ := exists_start_of_any .default ⟨"/", []⟩ disk (.zero false) (fun s =>
    ((DiscoveryRules.ofConfig s.context.rules.config).toOption.any fun rules =>
      rules.findBuildFile s.context.disk root = .ok (some build) ∧
      ((s.context.disk.entriesIn s.context.languages root).forM fun name =>
        rules.exclude.settle (excludes rules.exclude.texts ⟨"", [name]⟩)) = .ok ⟨⟩ ∧
      s.context.disk.sourcesBelow s.context.languages root rules.exclude.texts = p.files) ∧
    ((traceServiceCalls "H" "f").resolve (classIn s root p)
      (p.declarations s.disk s.languages)).toOption.any (·.any fun traced =>
        typedCalls traced = [("A", "g"), ("B", "g"), ("A", "h")]) ∧
    ((serviceIssues s.rules "H" "f").resolve (classIn s root p)
      (p.declarations s.disk s.languages)).toOption.any (·.map Issue.code =
        ["SP905", "SP905", "SP903", "SP904"]))
    (by decide +kernel)
  obtain ⟨hany, htrace, hissues⟩ := of_decide_eq_true hcheck
  obtain ⟨rules, hrules, hany⟩ := exists_ok_of_any hany
  obtain ⟨hbuild, hentries, hfiles⟩ := of_decide_eq_true hany
  obtain ⟨found, htrace, hcalls⟩ := exists_ok_of_any htrace
  obtain ⟨traced, rfl, hcalls⟩ := (Option.any_eq_true _ _).1 hcalls
  obtain ⟨issues, hissues, hcodes⟩ := exists_ok_of_any hissues
  have hcalls := of_decide_eq_true hcalls
  have harises : Arises s := .start hs
  have hp : projectOf s.context s.memory root = .ok (⟨root, some build⟩, p) :=
    projectOf_of_sourcesBelow hrules hbuild hentries hfiles (by decide +kernel)
      (by rw [(views_of_start hs).2.2]; rfl)
  have hr : Path.resolve s.directory root = root := by
    rw [(views_of_start hs).1]
    rfl
  have hrun {α : Type} (q : Inquiry α) :=
    perform_run_eq q hr hp (harises.keepsOrder.projectOf hp)
  have htrace := (hrun _).trans htrace
  have hissues := (hrun _).trans hissues
  obtain ⟨find, all, -, -, haccount | ⟨f, hf, -⟩⟩ :=
    serviceIssues_accounted harises htrace (by simp [hcalls])
  · obtain ⟨issues', hissues', haccount⟩ := haccount
    cases hissues'.symm.trans hissues
    exact ⟨s, traced, find, all, issues, hs, htrace, hcalls, hissues, of_decide_eq_true hcodes,
      haccount⟩
  · cases hf.symm.trans hissues

end Session

end RouteLens
