import RouteLens.Proofs.Analysis.WholeRules
import RouteLens.Proofs.Payload.ClassCauses
import RouteLens.Proofs.Session.Transparency

/-!
# Which queries have an answer

With rules that break off nowhere, a query has an answer unless a class of the project holds the
cause of a fault that the query may come across (`Succeeds`, `succeeds_ask`).  Most queries come
across none: they read no annotation, and no source text can make them fail.  The default
configuration has such rules.
-/

namespace RouteLens

section

variable {edition : Nat} [CharacterNames edition]

/-! ## Rules that break off nowhere -/

/-- Every member of the lists is a text, and so is the source folder. -/
structure DiscoveryRules.Whole (rules : DiscoveryRules) : Prop where
  buildFiles : rules.buildFiles.broken = none
  exclude : rules.exclude.broken = none
  sourceFolder : ∃ s, rules.sourceFolder.asText = .ok s

namespace DiscoveryRules.Whole

variable {rules : DiscoveryRules} (h : rules.Whole)
include h

theorem findBuildFile (d : Disk) (root : Path) :
    ∃ build, rules.findBuildFile d root = .ok build := by
  rw [DiscoveryRules.findBuildFile, Listing.settle_of_whole h.buildFiles]
  exact ⟨_, rfl⟩

theorem discover (d : Disk) (ls : Languages) (folder : Path) :
    ∃ files, rules.discover d ls folder = .ok files := by
  have hentries (names : List String) : (names.forM fun name =>
      rules.exclude.settle (excludes rules.exclude.texts ⟨"", [name]⟩)) = .ok () := by
    induction names with
    | nil => rfl
    | cons name names ih =>
      rw [List.forM_eq_forM, List.forM_cons, Listing.settle_of_whole h.exclude]
      exact ih
  rw [DiscoveryRules.discover, hentries]
  exact ⟨_, rfl⟩

theorem load (d : Disk) (ls : Languages) (root : Path) :
    ∃ p notes, Project.load d ls rules root = .ok (p, notes) := by
  obtain ⟨build, hbuild⟩ := h.findBuildFile d root
  unfold Project.load
  rw [hbuild, ok_bind]
  cases build with
  | some build =>
    obtain ⟨files, hfiles⟩ := h.discover d ls root
    exact ⟨_, _, by simp only [hfiles, ok_bind]; rfl⟩
  | none =>
    obtain ⟨folder, hfolder⟩ := h.sourceFolder
    obtain ⟨files, hfiles⟩ := h.discover d ls (root.join (.ofText folder))
    exact ⟨_, _, by simp only [hfolder, ok_bind, hfiles]; rfl⟩

end DiscoveryRules.Whole

/-- No rule of a session breaks off. -/
structure SessionRules.Whole (rules : SessionRules) : Prop where
  exceptions : rules.exceptions.Whole
  discovery : ∃ d, DiscoveryRules.ofConfig rules.config = .ok d ∧ d.Whole
  payload : ∃ r, PayloadRules.ofConfig rules.config = .ok r
  fetches : ∃ t, FetchNames.ofConfig rules.config = .ok t ∧ t.broken = none
  transactions : ∃ ps, transactionPatterns rules.config = .ok ps

open PayloadRules

/-! ## Analyses by name -/

section ByName

variable {S : Fault → Prop} {classes : String → List ClassDecl} {className methodName : String}

theorem meets_findMethod (className methodName : String) :
    Meets S (fun found => ∀ m ∈ found, InReach classes m.owner ∧ m ∈ m.owner.methods)
      ((Inquiry.findMethod className methodName).answer classes) := by
  simp only [Inquiry.findMethod, Inquiry.answer_seq, Inquiry.answer_findClass, ok_bind]
  cases hc : (classes className).head? with
  | none => exact .ok nofun
  | some c =>
    refine .ok fun m hm => ?_
    have hmem : m ∈ c.methods := List.mem_of_find?_eq_some hm
    rw [ClassDecl.owner_of_mem_methods hmem]
    exact ⟨⟨className, hc⟩, hmem⟩

theorem meets_entryMethod (className methodName : String) :
    Meets S (fun found => ∀ m ∈ found, InReach classes m.owner ∧ m ∈ m.owner.methods)
      ((entryMethod className methodName).answer classes) := by
  simp only [entryMethod, Inquiry.answer_seq, Inquiry.answer_findClass, ok_bind]
  cases hc : (classes className).head? with
  | none => exact .ok nofun
  | some c =>
    simp only
    cases hm : c.findMethod? methodName with
    | none => exact .ok nofun
    | some m =>
      refine .ok ?_
      rintro _ ⟨⟩
      have hmem : m ∈ c.methods := List.mem_of_find?_eq_some hm
      rw [ClassDecl.owner_of_mem_methods hmem]
      exact ⟨⟨className, hc⟩, hmem⟩

theorem succeeds_complexity (className methodName : String) :
    Succeeds S ((methodComplexity className methodName).answer classes) := by
  simp only [methodComplexity, Inquiry.answer_seq]
  exact (meets_findMethod className methodName).bind fun _ _ => succeeds_ok _

theorem succeeds_loopFinding {config : Config} {t : FetchNames}
    (ht : FetchNames.ofConfig config = .ok t) (hwhole : t.broken = none)
    (className methodName : String) :
    Succeeds S ((methodLoopFinding config className methodName).answer classes) := by
  simp only [methodLoopFinding, Inquiry.answer_seq]
  refine (meets_findMethod className methodName).bind fun found _ => ?_
  cases found with
  | none => exact succeeds_ok none
  | some m =>
    simp only [Inquiry.answer_seq, Inquiry.answer_lift, ht, ok_bind,
      m.findLoopFetch_of_whole hwhole]
    cases m.loopFetch? t <;> exact succeeds_ok _

theorem succeeds_exception {r : ExceptionRules} (hwhole : r.Whole) (className : String) :
    Succeeds S ((classException (.ok r) className).answer classes) := by
  simp only [classException, Inquiry.answer_seq, Inquiry.answer_findClass, ok_bind]
  cases (classes className).head? with
  | none => exact succeeds_ok none
  | some c =>
    simp only [Inquiry.answer_seq, Inquiry.answer_lift, ok_bind, r.inferred_of_whole hwhole]
    exact succeeds_ok _

theorem succeeds_docs (r : DocRules) (className methodName : String) :
    Succeeds S ((handlerDocs (.ok r) className methodName).answer classes) := by
  simp only [handlerDocs, Inquiry.answer_seq]
  refine (meets_findMethod className methodName).bind fun found _ => ?_
  cases found <;> exact succeeds_ok _

section Annotations

variable (hclasses : ∀ c, InReach classes c → c.CausesOnly S)
include hclasses

theorem succeeds_firstServiceCall (className methodName : String) :
    Succeeds (OfNull S) ((firstServiceCall className methodName).answer classes) := by
  simp only [firstServiceCall, Inquiry.answer_seq]
  refine (meets_entryMethod className methodName).bind fun found hfound => ?_
  cases found with
  | none => exact succeeds_ok none
  | some m =>
    obtain ⟨hreach, hm⟩ := hfound m rfl
    simp only [Inquiry.answer_lift]
    exact (hclasses _ hreach).firstServiceCall hm

theorem succeeds_traceServiceCalls (className methodName : String) :
    Succeeds (OfNull S) ((traceServiceCalls className methodName).answer classes) := by
  simp only [traceServiceCalls, Inquiry.answer_seq]
  refine (meets_entryMethod className methodName).bind fun found hfound => ?_
  cases found with
  | none => exact succeeds_ok none
  | some m =>
    obtain ⟨hreach, hm⟩ := hfound m rfl
    simp only [Inquiry.answer_seq, Inquiry.answer_lift]
    exact ((hclasses _ hreach).serviceCalls hm).bind fun _ _ => succeeds_ok _

theorem succeeds_handlerAuth (r : AuthRules) (className methodName : String) :
    Succeeds (fun f => OfNull S f ∨ OfPrinting S f)
      ((handlerAuth (.ok r) className methodName).answer classes) := by
  simp only [handlerAuth, Inquiry.answer_seq]
  refine (meets_findMethod className methodName).bind fun found hfound => ?_
  cases found with
  | none => exact succeeds_ok none
  | some m =>
    obtain ⟨hreach, hm⟩ := hfound m rfl
    simp only [Inquiry.answer_seq, Inquiry.answer_lift, ok_bind]
    exact ((hclasses _ hreach).auth hm r).bind fun _ _ => succeeds_ok _

theorem succeeds_handlerPayloads {config : Config} {r : PayloadRules}
    (hr : PayloadRules.ofConfig config = .ok r) (limit : Nat) (className methodName : String) :
    Succeeds S ((handlerPayloads config limit className methodName).answer classes) := by
  simp only [handlerPayloads, Inquiry.answer_seq]
  refine (meets_findMethod className methodName).bind fun found hfound => ?_
  cases found with
  | none => exact succeeds_ok none
  | some m =>
    obtain ⟨hreach, hm⟩ := hfound m rfl
    simp only [Inquiry.answer_seq, Inquiry.answer_lift, hr, ok_bind]
    refine Meets.bind (succeeds_paramPayloads hclasses r limit (fun p hp => ?_) [])
      fun _ _ => succeeds_ok _
    exact ((hclasses _ hreach).paramTypeName hm hp).mono (fun _ hf => hf.2) fun _ h => h

end Annotations

end ByName

namespace Session

/-! ## Queries -/

/-- The faults that a query may come across: building payloads evaluates the declarations of fields,
other queries read at most the names of types and print expressions. -/
def Query.mayMeet : Query → Fault → Prop
  | .payload _ _, _ | .handlerPayloads _ _, _ => True
  | .firstServiceCall _ _, f | .serviceCalls _ _, f => f = .nullCharacter
  | .methodFacts _ _, f => ∃ reason, f = .unprintable reason
  | .auth _ _, f => f = .nullCharacter ∨ ∃ reason, f = .unprintable reason
  | _, _ => False

/-- A class is the first declaration of its name that a session finds for a root. -/
def Declares (c : Context) (root : Path) (k : ClassDecl) : Prop :=
  ∃ classes, classesOf c root = .ok classes ∧ InReach classes k

variable {α : Type} {S : Fault → Prop} {c : Context} {s : Session} {r root : Path}

theorem exists_projectOf (h : c.rules.Whole) (root : Path) :
    ∃ key p, projectOf c .empty root = .ok (key, p) := by
  obtain ⟨rules, hrules, hwhole⟩ := h.discovery
  obtain ⟨build, hbuild⟩ := hwhole.findBuildFile c.disk root
  obtain ⟨p, notes, hload⟩ := hwhole.load c.disk c.languages root
  exact ⟨⟨root, build⟩, p,
    projectOf_eq_ok_iff.2 ⟨rules, build, hrules, hbuild, rfl, .inr ⟨rfl, notes, hload⟩⟩⟩

theorem succeeds_run {classes : String → List ClassDecl} (h : Coherent c s)
    (hr : Path.resolve c.directory r = root) (hclasses : classesOf c root = .ok classes)
    {q : Inquiry α} (hq : Succeeds S (q.answer classes)) : Succeeds S (perform (run r q) s).1 := by
  rw [(Yields.run q h hr).result_eq, hclasses, Inquiry.answerIn_ok]
  exact hq

theorem succeeds_factsOf {rules : SessionRules} (h : rules.Whole) {found : Option MethodDecl}
    (hfound : ∀ m ∈ found, m.owner.CausesOnly S ∧ m ∈ m.owner.methods) :
    Succeeds (OfPrinting S) (factsOf rules found) := by
  obtain ⟨patterns, hpatterns⟩ := h.transactions
  cases found with
  | none => exact succeeds_ok none
  | some m =>
    obtain ⟨hcauses, hm⟩ := hfound m rfl
    rw [factsOf, hpatterns, ok_bind, m.gatherFacts_of_whole h.exceptions]
    refine Meets.bind (P := fun _ => True) ?_ fun _ _ => succeeds_ok _
    refine (hcauses.printAll hm fun e he => ?_).bind fun _ _ => ?_
    · exact List.mem_append_left _ (List.mem_append_left _ he)
    · refine (hcauses.printAll hm fun e he => ?_).bind fun _ _ => succeeds_ok _
      exact List.mem_append_left _ (List.mem_append_right _ he)

/-- A query fails only with a fault that it may come across, and whose cause a class of the project
holds. -/
theorem succeeds_ask (h : Coherent c s) (hrules : c.rules.Whole) (r : Path) (q : Query) :
    Succeeds (fun f => q.mayMeet f ∧ ∃ k, Declares c (Path.resolve c.directory r) k ∧ k.Causes f)
      (perform (ask r q) s).1 := by
  obtain ⟨key, p, hp⟩ := exists_projectOf hrules (Path.resolve c.directory r)
  have hclasses : classesOf c (Path.resolve c.directory r) =
      .ok (p.declarations c.disk c.languages) := by rw [classesOf, hp]; rfl
  -- every class in reach is one that the project declares, so that its causes are expected
  have hcauses (k : ClassDecl) (hk : InReach (p.declarations c.disk c.languages) k) :
      k.CausesOnly fun f => ∃ k, Declares c (Path.resolve c.directory r) k ∧ k.Causes f :=
    fun f hf => ⟨k, ⟨_, hclasses, hk⟩, hf⟩
  cases q with
  | classOf className => exact succeeds_run h rfl hclasses (succeeds_ok _)
  | declarationsOf className => exact succeeds_run h rfl hclasses (succeeds_ok _)
  | firstServiceCall className methodName =>
    exact succeeds_run h rfl hclasses (succeeds_firstServiceCall hcauses className methodName)
  | serviceCalls className methodName =>
    exact succeeds_run h rfl hclasses (succeeds_traceServiceCalls hcauses className methodName)
  | methodFacts className methodName =>
    rw [(Yields.methodFacts h rfl).result_eq, factsFor, hclasses, Inquiry.answerIn_ok]
    refine (meets_findMethod className methodName).bind fun found hfound => ?_
    exact succeeds_factsOf hrules fun m hm => ⟨hcauses _ (hfound m hm).1, (hfound m hm).2⟩
  | complexity className methodName =>
    exact succeeds_run h rfl hclasses (succeeds_complexity className methodName)
  | loopFetches className methodName =>
    obtain ⟨t, ht, hwhole⟩ := hrules.fetches
    rw [ask, perform_bind_ok (perform_get s), h.rules_eq]
    exact succeeds_run h rfl hclasses (succeeds_loopFinding ht hwhole className methodName)
  | exception className =>
    rw [ask, perform_bind_ok (perform_get s), h.rules_eq]
    exact succeeds_run h rfl hclasses (succeeds_exception hrules.exceptions className)
  | payload className depth =>
    obtain ⟨rules, hpayload⟩ := hrules.payload
    rw [ask, samplePayload, perform_bind_ok (perform_get s), h.rules_eq, hpayload,
      perform_bind_ok (perform_lift _ s)]
    -- the limit that this session has answers as the one of a session that starts
    have hyields := Yields.limited h (r := r) rfl
      (fun classes _ _ hl hl' => synthesize_congr hl hl' rules className depth)
    rw [hyields.result_eq, hp, ok_bind]
    exact (succeeds_synthesize hcauses rules _ className depth).mono
      (fun _ hf => ⟨trivial, hf⟩) fun _ h => h
  | handlerPayloads className methodName =>
    obtain ⟨rules, hpayload⟩ := hrules.payload
    rw [ask, sampleHandler, perform_bind_ok (perform_get s), h.rules_eq]
    have hyields := Yields.limited h (r := r) rfl (fun classes _ _ hl hl' =>
      handlerPayloads_congr hl hl' c.rules.config className methodName)
    rw [hyields.result_eq, hp, ok_bind]
    exact (succeeds_handlerPayloads hcauses hpayload _ className methodName).mono
      (fun _ hf => ⟨trivial, hf⟩) fun _ h => h
  | auth className methodName =>
    rw [ask, perform_bind_ok (perform_get s)]
    refine (succeeds_run h rfl hclasses (succeeds_handlerAuth hcauses _ className methodName)).mono
      (fun f hf => ?_) fun _ h => h
    exact hf.elim (fun hf => ⟨.inl hf.1, hf.2⟩) fun hf => ⟨.inr hf.1, hf.2⟩
  | apiDocs className methodName =>
    rw [ask, perform_bind_ok (perform_get s)]
    exact succeeds_run h rfl hclasses (succeeds_docs _ className methodName)

/-! ## The default configuration -/

/-- The default configuration has rules, and none of them breaks off. -/
theorem exists_rules_default :
    ∃ rules ttl notes, readRules Config.default.orDefault = .ok (rules, ttl, notes) ∧
      rules.Whole := by
  obtain ⟨⟨rules, ttl, notes⟩, hread, hcheck⟩ := exists_ok_of_any
    (show (readRules Config.default.orDefault).toOption.any (fun r =>
      decide r.1.exceptions.Whole &&
        (DiscoveryRules.ofConfig r.1.config).toOption.any (fun d =>
          decide (d.buildFiles.broken = none ∧ d.exclude.broken = none) &&
            d.sourceFolder.asText.toOption.any fun _ => true) &&
        (PayloadRules.ofConfig r.1.config).toOption.any (fun _ => true) &&
        (FetchNames.ofConfig r.1.config).toOption.any (fun t => decide (t.broken = none)) &&
        (transactionPatterns r.1.config).toOption.any fun _ => true) by rfl)
  simp only [Bool.and_eq_true, decide_eq_true_eq] at hcheck
  obtain ⟨⟨⟨⟨hexceptions, hdiscovery⟩, hpayload⟩, hfetches⟩, htransactions⟩ := hcheck
  refine ⟨rules, ttl, notes, hread, hexceptions, ?_, ?_, ?_, ?_⟩
  · obtain ⟨d, hd, hwhole⟩ := exists_ok_of_any hdiscovery
    simp only [Bool.and_eq_true, decide_eq_true_eq] at hwhole
    obtain ⟨folder, hfolder, -⟩ := exists_ok_of_any hwhole.2
    exact ⟨d, hd, hwhole.1.1, hwhole.1.2, folder, hfolder⟩
  · exact (exists_ok_of_any hpayload).imp fun _ h => h.1
  · exact (exists_ok_of_any hfetches).imp fun _ h => ⟨h.1, of_decide_eq_true h.2⟩
  · exact (exists_ok_of_any htransactions).imp fun _ h => h.1

theorem exists_start_default (directory : Path) (disk : Disk) (now : Binary64) :
    ∃ s, start .default directory disk now = .ok s ∧ s.rules.Whole := by
  obtain ⟨rules, ttl, notes, hread, hwhole⟩ := exists_rules_default
  exact ⟨_, bind_eq_ok_iff.2 ⟨_, hread, rfl⟩, hwhole⟩

/-- With the default configuration a session starts in every directory of every disk, and every
query about a root has an answer there, whatever was asked before, unless a class of the project
holds the cause of a fault that the query may come across. -/
theorem exists_answer_without_causes (directory : Path) (disk : Disk) (now : Binary64) :
    ∃ s, start .default directory disk now = .ok s ∧
      ∀ steps : List Step, (∀ e ∈ steps, e.leavesDisk = true) → ∀ root q,
        (∀ k f, Declares s.context (Path.resolve directory root) k → q.mayMeet f →
          ¬ k.Causes f) →
        ∃ a, (perform (ask root q) (s.after steps)).1 = .ok a := by
  obtain ⟨s, hstart, hwhole⟩ := exists_start_default directory disk now
  refine ⟨s, hstart, fun steps hsteps root q hcauses => ?_⟩
  have hcoherent : Coherent s.context (s.after steps) :=
    (coherent_of_empty rfl (views_of_start hstart).2.2).after hsteps
  have hdirectory : s.context.directory = directory := (views_of_start hstart).1
  have hanswer := succeeds_ask hcoherent hwhole root q
  rw [hdirectory] at hanswer
  generalize (perform (ask root q) (s.after steps)).1 = x at hanswer ⊢
  cases hanswer with
  | ok => exact ⟨_, rfl⟩
  | error hf =>
    obtain ⟨hmeets, k, hk, hcause⟩ := hf
    exact (hcauses k _ hk hmeets hcause).elim

/-! ## Projects without causes -/

/-- No class of a root holds a cause if the check finds none in the classes of its files. -/
theorem not_causes_of_declares {depth : Nat} (h : (projectOf c .empty root).toOption.any fun kp =>
      (kp.2.files.filterMap (kp.2.unitOf c.disk c.languages)).all fun u =>
        u.classes.all (ClassDecl.isClean depth)) {k : ClassDecl} (hk : Declares c root k)
    (f : Fault) : ¬ k.Causes f := by
  obtain ⟨⟨key, p⟩, hp, hclean⟩ := exists_ok_of_any h
  obtain ⟨classes, hclasses, name, hname⟩ := hk
  rw [classesOf, hp] at hclasses
  cases hclasses
  obtain ⟨u, hu, hclass⟩ := List.mem_filterMap.1 (List.mem_of_head? hname)
  exact ClassDecl.not_causes_of_isClean
    (List.all_eq_true.1 (List.all_eq_true.1 hclean u hu) k (List.mem_of_find?_eq_some hclass)) f

end Session

end

namespace Session

/-- Quoted annotations inside quoted ones, one that is malformed, a null character that is a value,
and bounds near the largest number leave every query its answer. -/
theorem exists_answer_without_causes_quoted :
    let root : Path := ⟨"/", ["app"]⟩
    let disk : Disk := ⟨[(["app", "src", "m.py"],
      ("class A:\n x: 'List[\"int\"]'\n y: \"str(\"\n z: Literal['\\0']\n" ++
        " w: float = Field(gt=1e308)").toUTF8.toList)], []⟩
    let steps : List Step := [.ask root (.payload "A" none), .clearResults, .invalidate root]
    ∃ s, start .default ⟨"/", []⟩ disk (.zero false) = .ok s ∧
      (∀ e ∈ steps, e.leavesDisk = true) ∧
      (∀ k f, Declares s.context (Path.resolve ⟨"/", []⟩ root) k → ¬ k.Causes f) ∧
      (∀ q, ∃ a, (perform (ask root q) (s.after steps)).1 = .ok a) ∧
      (perform (ask root (.payload "A" none)) s).1.toOption.join.isSome = true := by
  intro root disk steps
  obtain ⟨s, hs, hcheck⟩ := exists_start_of_any .default ⟨"/", []⟩ disk (.zero false) (fun s =>
    (projectOf s.context .empty (Path.resolve ⟨"/", []⟩ root)).toOption.any (fun kp =>
      (kp.2.files.filterMap (kp.2.unitOf s.context.disk s.context.languages)).all fun u =>
        u.classes.all (ClassDecl.isClean 5)) &&
      (perform (ask root (.payload "A" none)) s).1.toOption.join.isSome)
    (by decide +kernel)
  obtain ⟨hclean, hpayload⟩ := Bool.and_eq_true_iff.1 hcheck
  obtain ⟨s', hs', hanswers⟩ := exists_answer_without_causes ⟨"/", []⟩ disk (.zero false)
  rw [hs] at hs'
  cases hs'
  have hcauses (k : ClassDecl) (f : Fault)
      (hk : Declares s.context (Path.resolve ⟨"/", []⟩ root) k) : ¬ k.Causes f :=
    not_causes_of_declares hclean hk f
  have hsteps : ∀ e ∈ steps, e.leavesDisk = true := by decide
  exact ⟨s, hs, hsteps, hcauses,
    fun q => hanswers steps hsteps root q fun k f hk _ => hcauses k f hk, hpayload⟩

theorem eq_error_of_map {α : Type} {x : Except Fault α} {f : Fault}
    (h : x.map (fun _ => ()) = .error f) : x = .error f := by
  cases x with
  | error g =>
    cases h
    rfl
  | ok a => cases h

/-- A quoted annotation with a null character leaves queries about its class without an answer, and
so does a bound on a length that is infinite or too large, and a type that cannot be printed. -/
theorem exists_query_without_answer :
    let root : Path := ⟨"/", ["app"]⟩
    let disk : Disk := ⟨[(["app", "src", "m.py"],
      ("class A:\n x: '\\0'\nclass B:\n x: str = Field(min_length=1e999)\n" ++
        "class C:\n def f(self, r: '\\0'): 0\n" ++
        "class D:\n x: str = Field(min_length=9223372036854775808)\n" ++
        "class E:\n def f(self) -> f'\x7b\"\x7f\"\x7d': 0").toUTF8.toList)], []⟩
    ∃ s, start .default ⟨"/", []⟩ disk (.zero false) = .ok s ∧
      (perform (ask root (.payload "A" none)) s).1 = .error .nullCharacter ∧
      (perform (ask root (.payload "B" none)) s).1 = .error .infiniteNumber ∧
      (perform (ask root (.auth "C" "f")) s).1 = .error .nullCharacter ∧
      (perform (ask root (.payload "D" none)) s).1 = .error .lengthTooLarge ∧
      (perform (ask root (.methodFacts "E" "f")) s).1 =
        .error (.unprintable .embeddedBackslash) := by
  intro root disk
  obtain ⟨s, hs, hcheck⟩ := exists_start_of_any .default ⟨"/", []⟩ disk (.zero false) (fun s =>
    (perform (ask root (.payload "A" none)) s).1.map (fun _ => ()) = .error .nullCharacter ∧
      (perform (ask root (.payload "B" none)) s).1.map (fun _ => ()) = .error .infiniteNumber ∧
      (perform (ask root (.auth "C" "f")) s).1.map (fun _ => ()) = .error .nullCharacter ∧
      (perform (ask root (.payload "D" none)) s).1.map (fun _ => ()) = .error .lengthTooLarge ∧
      (perform (ask root (.methodFacts "E" "f")) s).1.map (fun _ => ()) =
        .error (.unprintable .embeddedBackslash))
    (by decide +kernel)
  obtain ⟨hquoted, hbound, hauth, hlength, hprinted⟩ := of_decide_eq_true hcheck
  exact ⟨s, hs, eq_error_of_map hquoted, eq_error_of_map hbound, eq_error_of_map hauth,
    eq_error_of_map hlength, eq_error_of_map hprinted⟩

end Session

end RouteLens
