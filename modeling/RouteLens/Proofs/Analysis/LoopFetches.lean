import RouteLens.Analysis.LoopFetches
import RouteLens.Proofs.Tree.Trails

/-!
# Fetches in loops and constructs in loops

The search for fetches goes loop by loop and looks at what each loop repeats; a construct knows
whether some loop repeats it from its trail.  Both views find the same awaited calls: a loop around
a construct is a cut of its trail, and what is below the cut is the trail inside that loop.
-/

namespace RouteLens

namespace MethodDecl

variable {m : MethodDecl}

/-- What stands in a construct of a method stands in the method. -/
theorem mem_occurrences_of_mem {l o : Occurrence} (hl : l ∈ m.occurrences)
    (ho : o ∈ l.node.occurrences []) : ⟨o.node, o.trail ++ l.trail⟩ ∈ m.occurrences := by
  obtain ⟨s, hs, outer, htrail, houter⟩ := mem_occurrences_iff.1 hl
  obtain ⟨inner, -, hinner_trail, hinner⟩ := Node.mem_occurrencesBy_iff.1 ho
  refine mem_occurrences_iff.2 ⟨s, hs, inner ++ outer, ?_, hinner.trans houter⟩
  rw [htrail, hinner_trail]
  simp

/-- A step of a trail that repeats something is not the last one, which leaves the method. -/
theorem cut_of_repeats {below : Option Role} {whole inner outer : List Step} {s : Step}
    (h : whole ++ [m.outStep] = inner ++ s :: outer) (hs : s.role.repeats below = true) :
    ∃ outer', outer = outer' ++ [m.outStep] ∧ whole = inner ++ s :: outer' := by
  have hne : s ≠ m.outStep := by
    rintro rfl
    cases hs
  obtain ⟨rest, hinner, hrest⟩ | ⟨rest, hwhole, hrest⟩ := List.append_eq_append_iff.1 h
  · cases rest with
    | nil => simp_all
    | cons s' rest => simp at hrest
  · cases rest with
    | nil => simp_all
    | cons s' rest =>
      cases hrest
      exact ⟨rest, rfl, hwhole⟩

/-- A step that repeats what is below it leaves a loop of the method, and what is below it stands in
that loop. -/
theorem exists_loop_of_cut {o : Occurrence} (ho : o ∈ m.occurrences) {inner outer : List Step}
    {s : Step} (htrail : o.trail = inner ++ s :: outer)
    (h : s.role.repeats (inner.getLast?.map Step.role) = true) :
    ⟨s.parent, outer⟩ ∈ m.occurrences ∧ s.parent.isLoop = true ∧
      ⟨o.node, inner ++ [s]⟩ ∈ s.parent.occurrences [] := by
  obtain ⟨stmt, hstmt, whole, hwhole, hleads⟩ := mem_occurrences_iff.1 ho
  obtain ⟨outer, rfl, rfl⟩ := cut_of_repeats (hwhole.symm.trans htrail) h
  obtain ⟨n, hn, hinner⟩ := hleads.cut
  cases hn with
  | @part _ p c houter hc =>
    have hloop : Node.Leads p (inner ++ [⟨p, c.role⟩]) o.node :=
      hinner.trans (.part .here hc)
    exact ⟨mem_occurrences_iff.2 ⟨stmt, hstmt, outer, rfl, houter⟩, Node.isLoop_of_repeats hc h,
      Node.mem_occurrencesBy_iff.2 ⟨_, by simp, by simp, hloop⟩⟩

/-- The constructs that some loop around them repeats are those that some loop of the method
repeats. -/
theorem exists_inLoop_iff {p : Node → Prop} :
    (∃ o ∈ m.occurrences, o.inLoop = true ∧ p o.node) ↔
      ∃ l ∈ m.occurrences, l.node.isLoop = true ∧
        ∃ o ∈ l.node.occurrences [], o.repeatedByRoot = true ∧ p o.node := by
  constructor
  · rintro ⟨o, ho, hloop, hp⟩
    obtain ⟨inner, s, outer, htrail, h⟩ := Occurrence.inLoop_iff.1 hloop
    obtain ⟨hl, hisLoop, hmem⟩ := exists_loop_of_cut ho htrail h
    exact ⟨_, hl, hisLoop, _, hmem, by rw [Occurrence.repeatedByRoot_append]; exact h, hp⟩
  · rintro ⟨l, hl, -, o, ho, h, hp⟩
    refine ⟨_, mem_occurrences_of_mem hl ho, Occurrence.inLoop_iff.2 ?_, hp⟩
    obtain ⟨node, trail⟩ := o
    rcases List.eq_nil_or_concat trail with rfl | ⟨inner, s, rfl⟩
    · simp [Occurrence.repeatedByRoot] at h
    · rw [List.concat_eq_append, Occurrence.repeatedByRoot_append] at h
      exact ⟨inner, s, l.trail, by simp, h⟩

end MethodDecl

/-! ## Awaited calls -/

/-- The expression is a call. -/
def Expr.IsCall (e : Expr) : Prop :=
  e.callee?.isSome = true

/-- The first call of a value: the value itself if it is a call, and otherwise the first call that a
traversal of it meets. -/
def Expr.FirstCall (value call : Expr) : Prop :=
  (value.IsCall ∧ call = value) ∨
    ¬ value.IsCall ∧ call.IsCall ∧ ∃ before after,
      (Node.expr value).descendants = before ++ .expr call :: after ∧
        ∀ e, .expr e ∈ before → ¬ e.IsCall

theorem Node.call?_eq_some_iff {n : Node} {e : Expr} :
    n.call? = some e ↔ n = .expr e ∧ e.IsCall := by
  cases n <;> simp [Node.call?, Expr.IsCall]
  grind

theorem Node.call?_eq_none_iff {n : Node} : n.call? = none ↔ ∀ e, n = .expr e → ¬ e.IsCall := by
  simp only [Option.eq_none_iff_forall_not_mem, Option.mem_def, Node.call?_eq_some_iff, not_and]

/-- The call that an awaited value runs is its first one. -/
theorem awaitedCall?_eq_some_iff {value call : Expr} :
    awaitedCall? value = some call ↔ value.FirstCall call := by
  unfold awaitedCall? Expr.FirstCall
  split
  · rename_i c hc
    obtain ⟨h, hcall⟩ := Node.call?_eq_some_iff.1 hc
    cases h
    simp [hcall, eq_comm]
  · rename_i hnone
    have hnot : ¬ value.IsCall := Node.call?_eq_none_iff.1 hnone value rfl
    rw [List.findSome?_eq_some_iff]
    simp only [hnot, false_and, not_false_eq_true, true_and, false_or]
    constructor
    · rintro ⟨before, n, after, hall, hn, hbefore⟩
      obtain ⟨rfl, hcall⟩ := Node.call?_eq_some_iff.1 hn
      exact ⟨hcall, before, after, hall, fun e he => Node.call?_eq_none_iff.1 (hbefore _ he) e rfl⟩
    · rintro ⟨hcall, before, after, hall, hbefore⟩
      refine ⟨before, _, after, hall, Node.call?_eq_some_iff.2 ⟨rfl, hcall⟩, fun n hn => ?_⟩
      exact Node.call?_eq_none_iff.2 fun e he => hbefore e (he ▸ hn)

theorem FetchNames.test_eq_true_iff {t : FetchNames} {name : String} :
    t.test name = .ok true ↔ t.matchesName name = true := by
  unfold FetchNames.test
  cases t.broken with
  | none => simp
  | some f =>
    by_cases hname : name.isEmpty || t.matchesName name
    · simp [hname]
    · simp at hname
      simp [hname]

theorem Expr.terminalName?_eq_of_callee? {e callee : Expr} (h : e.callee? = some callee) :
    e.terminalName? = callee.terminalName? := by
  unfold Expr.callee? at h
  split at h
  · cases h
    simp [Expr.terminalName?]
  · cases h

theorem Expr.FirstCall.isCall {value call : Expr} (h : value.FirstCall call) : call.IsCall := by
  rcases h with ⟨h, rfl⟩ | ⟨-, h, -⟩ <;> exact h

/-- The name under which an awaited value is looked up is that of its first call. -/
theorem exists_ofAwaited?_iff {value : Expr} {p : String → Prop} :
    (∃ c, LoopCall.ofAwaited? value = some c ∧ p c.name) ↔
      ∃ call name, value.FirstCall call ∧ call.terminalName? = some name ∧ p name := by
  simp only [LoopCall.ofAwaited?, Option.bind_eq_bind, Option.bind_eq_some_iff,
    awaitedCall?_eq_some_iff, Option.pure_def, Option.some.injEq]
  constructor
  · rintro ⟨c, ⟨call, hfirst, callee, hcallee, name, hname, rfl⟩, hp⟩
    exact ⟨call, name, hfirst, (Expr.terminalName?_eq_of_callee? hcallee).trans hname, hp⟩
  · rintro ⟨call, name, hfirst, hname, hp⟩
    obtain ⟨callee, hcallee⟩ := Option.isSome_iff_exists.1 hfirst.isCall
    rw [Expr.terminalName?_eq_of_callee? hcallee] at hname
    exact ⟨⟨callee, name⟩, ⟨call, hfirst, callee, hcallee, name, hname, rfl⟩, hp⟩

/-- The construct awaits a value whose first call has the name of a fetch. -/
def Node.AwaitsFetch (t : FetchNames) (n : Node) : Prop :=
  ∃ span value, n = .expr (.node span (.await value)) ∧
    ∃ call name, value.FirstCall call ∧ call.terminalName? = some name ∧ t.test name = .ok true

/-- A loop lists a fetch exactly if an occurrence that it repeats awaits one. -/
theorem Node.exists_mem_loopCalls_iff {loop : Node} {t : FetchNames} :
    (∃ c ∈ loop.loopCalls, t.test c.name = .ok true) ↔
      ∃ o ∈ loop.occurrences [], o.repeatedByRoot = true ∧ o.node.AwaitsFetch t := by
  simp only [Node.loopCalls, List.mem_filterMap]
  constructor
  · rintro ⟨c, ⟨o, ho, hc⟩, htest⟩
    split at hc
    · rename_i span value hnode
      by_cases hroot : o.repeatedByRoot = true
      · rw [if_pos hroot] at hc
        exact ⟨o, ho, hroot, span, value, hnode, exists_ofAwaited?_iff.1 ⟨c, hc, htest⟩⟩
      · rw [if_neg hroot] at hc
        cases hc
    · cases hc
  · rintro ⟨o, ho, hroot, span, value, hnode, hfetch⟩
    obtain ⟨c, hc, htest⟩ := exists_ofAwaited?_iff.2 hfetch
    refine ⟨c, ⟨o, ho, ?_⟩, htest⟩
    rw [hnode]
    simpa [hroot] using hc

namespace MethodDecl

variable {m : MethodDecl} {t : FetchNames}

theorem exists_mem_loopCalls_iff :
    (∃ c ∈ m.loopCalls, t.test c.name = .ok true) ↔
      ∃ o ∈ m.occurrences, o.inLoop = true ∧ o.node.AwaitsFetch t := by
  rw [exists_inLoop_iff]
  simp only [loopCalls, List.mem_flatMap, List.mem_filter, List.mem_map,
    ← Node.exists_mem_loopCalls_iff]
  constructor
  · rintro ⟨c, ⟨_, ⟨⟨l, hl, rfl⟩, hloop⟩, hc⟩, htest⟩
    exact ⟨l, hl, hloop, c, hc, htest⟩
  · rintro ⟨l, hl, hloop, c, hc, htest⟩
    exact ⟨c, ⟨_, ⟨⟨l, hl, rfl⟩, hloop⟩, hc⟩, htest⟩

theorem suspect_findingOf {f : Option LoopCall} : (m.findingOf f).suspect = f.isSome := by
  cases f <;> rfl

theorem loopFinding_eq {f : LoopFinding} (h : m.loopFinding t = .ok f) :
    f = m.findingOf (m.loopFetch? t) := by
  simp only [loopFinding, findLoopFetch] at h
  obtain ⟨found, hfound, h⟩ := bind_eq_ok_iff.1 h
  cases h
  split at hfound
  · obtain ⟨_, -, hfound⟩ := bind_eq_ok_iff.1 hfound
    cases hfound
    rfl
  · cases hfound
    rfl

/-- With a table of texts there is a finding. -/
theorem exists_loopFinding (h : t.broken = none) : ∃ f, m.loopFinding t = .ok f := by
  refine ⟨m.findingOf (m.loopFetch? t), ?_⟩
  have htest (name : String) : t.test name = .ok (t.matchesName name) := by
    rw [FetchNames.test, h]
  simp only [loopFinding, findLoopFetch, htest]
  cases m.loopCalls.head? <;> rfl

theorem suspect_iff {f : LoopFinding} (h : m.loopFinding t = .ok f) :
    f.suspect = true ↔ ∃ o ∈ m.occurrences, o.inLoop = true ∧ o.node.AwaitsFetch t := by
  rw [loopFinding_eq h, suspect_findingOf, loopFetch?, List.find?_isSome,
    ← exists_mem_loopCalls_iff]
  simp only [FetchNames.test_eq_true_iff]

end MethodDecl

/-! ## Calls to collaborators -/

theorem Expr.fieldCall?_eq_some {e : Expr} {call : FieldCall} (h : e.fieldCall? = some call) :
    e.IsCall ∧ e.terminalName? = some call.method := by
  unfold Expr.fieldCall? at h
  split at h
  · cases h
    exact ⟨rfl, by simp [Expr.terminalName?]⟩
  · cases h

/-- The construct next to an occurrence on its trail awaits it. -/
def Occurrence.IsAwaited (o : Occurrence) : Prop :=
  ∃ span e role outer, o.node = .expr e ∧ o.trail = ⟨.expr (.node span (.await e)), role⟩ :: outer

theorem Occurrence.inLoopFrom_plain (trail : List Step) :
    inLoopFrom (some .plain) trail = inLoopFrom none trail := by
  cases trail with
  | nil => rfl
  | cons s trail =>
    rw [inLoopFrom, inLoopFrom]
    cases s.role <;> rfl

namespace MethodDecl

variable {m : MethodDecl} {t : FetchNames}

theorem callSite?_eq_some {o : Occurrence} {site : CallSite} (h : m.callSite? o = some site) :
    ∃ e, o.node = .expr e ∧ e.fieldCall? = some ⟨site.receiver, site.method⟩ ∧
      site.inLoop = o.inLoop := by
  simp only [callSite?, Option.bind_eq_bind, Option.bind_eq_some_iff, Occurrence.expr?] at h
  obtain ⟨e, he, call, hcall, h⟩ := h
  cases h
  split at he
  · cases he
    exact ⟨_, ‹_›, hcall, rfl⟩
  · cases he

/-- A call to a collaborator that is awaited in a loop is awaited by a construct in that loop. -/
theorem exists_awaitsFetch {o : Occurrence} (ho : o ∈ m.occurrences) {site : CallSite}
    (hsite : m.callSite? o = some site) (hloop : site.inLoop = true) (hawaited : o.IsAwaited)
    (htest : t.test site.method = .ok true) :
    ∃ a ∈ m.occurrences, a.inLoop = true ∧ a.node.AwaitsFetch t := by
  obtain ⟨span, e, role, outer, hnode, htrail⟩ := hawaited
  obtain ⟨e', he', hcall, hin⟩ := callSite?_eq_some hsite
  obtain rfl : e = e' := by
    rw [hnode] at he'
    exact Node.expr.inj he'
  obtain ⟨hisCall, hname⟩ := Expr.fieldCall?_eq_some hcall
  obtain ⟨stmt, hstmt, inner, hinner, hleads⟩ := mem_occurrences_iff.1 ho
  rw [htrail] at hinner
  cases inner with
  | nil => cases hinner
  | cons s inner =>
    cases hinner
    obtain ⟨houter, c, hc, hrole, -⟩ := hleads.of_cons
    refine ⟨⟨_, inner ++ [m.outStep]⟩, mem_occurrences_iff.2 ⟨stmt, hstmt, inner, rfl, houter⟩, ?_,
      span, e, rfl, e, _, .inl ⟨hisCall, rfl⟩, hname, htest⟩
    -- What is awaited is a plain part, so that the loop is one around the construct that awaits it.
    have hplain : role = .plain := hrole.trans (Child.role_of_mem_exprParts hc)
    rw [hin, Occurrence.inLoop, htrail, Occurrence.inLoopFrom, hplain, Role.repeats_plain,
      Bool.false_or, Occurrence.inLoopFrom_plain] at hloop
    exact hloop

/-- The search for fetches has a finding for every table of texts.  It is suspect if and only if
some construct in a loop awaits a value whose first call is a fetch; so it is whenever a call to a
collaborator that is reported in a loop is awaited and has the name of a fetch. -/
theorem loopFinding_suspect_iff (m : MethodDecl) (t : FetchNames) :
    (t.broken = none → ∃ f, m.loopFinding t = .ok f) ∧
      ∀ f, m.loopFinding t = .ok f →
        (f.suspect = true ↔ ∃ o ∈ m.occurrences, o.inLoop = true ∧ o.node.AwaitsFetch t) ∧
        ∀ o ∈ m.occurrences, ∀ site, m.callSite? o = some site → site.inLoop = true →
          o.IsAwaited → t.test site.method = .ok true → f.suspect = true := by
  refine ⟨exists_loopFinding, fun f hf => ⟨suspect_iff hf, ?_⟩⟩
  intro o ho site hsite hloop hawaited htest
  exact (suspect_iff hf).2 (exists_awaitsFetch ho hsite hloop hawaited htest)

/-- The call `self.orders.find()`. -/
def findCall : Expr :=
  .node default (.call (.node default (.attribute
    (.node default (.attribute (.node default (.name "self")) "orders")) "find")) [] [])

/-- The loop `for x in xs: await self.orders.find()`. -/
def findLoop : Stmt :=
  .node default (.forLoop false (.node default (.name "x")) (.node default (.name "xs"))
    [.node default (.expr (.node default (.await findCall)))] [])

/-- A method that is the loop. -/
def loadAll : MethodDecl where
  owner := ⟨⟨⟨"/", []⟩, "pass", []⟩, 0, .node default .pass, "Orders", [], [], [], []⟩
  stmt := .node default (.function true "load_all" .empty [findLoop] [] none)
  isAsync := true
  name := "load_all"
  params := .empty
  body := [findLoop]
  decorators := []
  returns := none

/-- The default table is one of texts, and finds what `loadAll` awaits in its loop: the call to the
collaborator is reported in a loop, and it is awaited. -/
theorem loopFinding_suspect_loadAll :
    (FetchNames.ofTable []).broken = none ∧
      ∃ f, loadAll.loopFinding (.ofTable []) = .ok f ∧ f.suspect = true ∧
        ∃ o ∈ loadAll.occurrences, o.inLoop = true ∧ o.node.AwaitsFetch (.ofTable []) := by
  obtain ⟨hsome, h⟩ := loopFinding_suspect_iff loadAll (.ofTable [])
  have hbroken : (FetchNames.ofTable []).broken = none := rfl
  obtain ⟨f, hf⟩ := hsome hbroken
  obtain ⟨hiff, hsite⟩ := h f hf
  have hbody : Node.Leads (.stmt findLoop) [⟨.stmt findLoop, .repeated⟩]
      (.stmt (.node default (.expr (.node default (.await findCall))))) :=
    .part (c := ⟨.repeated, _⟩) .here (.tail _ (.tail _ (.head _)))
  have hcall := (hbody.part (.head _)).part (.head _)
  have hmem : ⟨.expr findCall, _ ++ [loadAll.outStep]⟩ ∈ loadAll.occurrences :=
    mem_occurrences_iff.2 ⟨findLoop, .head _, _, rfl, hcall⟩
  have hsuspect := hsite _ hmem _ rfl rfl ⟨_, _, _, _, rfl, rfl⟩ (by decide +kernel)
  exact ⟨hbroken, f, hf, hsuspect, hiff.1 hsuspect⟩

end MethodDecl

end RouteLens
