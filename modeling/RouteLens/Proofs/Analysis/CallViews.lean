import RouteLens.Proofs.Payload.ClassCauses
import RouteLens.Proofs.Session.Answers

/-!
# Three views of the calls to collaborators

A method is gone through for its first call to a collaborator, for its distinct calls and for the
places of all calls.  The three agree: the distinct calls are those of the places without later
repetitions (`KeepsFirsts`), and the first call is the first of them.

Where they part is a class whose field types cannot be read.  The distinct calls are then not to be
had, not even if there are none; the first call is looked for before a type is read, so that a
method without calls has none.
-/

namespace RouteLens

section

variable {edition : Nat} [CharacterNames edition]

/-! ## Lists without later repetitions -/

/-- A list has the members of another one, each of them once and in the order in which they first
occur there. -/
structure KeepsFirsts {α : Type} [DecidableEq α] (xs ys : List α) : Prop where
  nodup : ys.Nodup
  mem_iff : ∀ x, x ∈ ys ↔ x ∈ xs
  ordered : ys.Pairwise fun a b => xs.idxOf a < xs.idxOf b

namespace FieldCall

theorem unseen_cons_of_mem {seen calls : List FieldCall} {c : FieldCall} (h : c ∈ seen) :
    unseen seen (c :: calls) = unseen seen calls := by
  rw [unseen, if_pos (List.contains_iff_mem.2 h)]

theorem unseen_cons_of_not_mem {seen calls : List FieldCall} {c : FieldCall} (h : c ∉ seen) :
    unseen seen (c :: calls) = c :: unseen (c :: seen) calls := by
  rw [unseen, if_neg fun hc => h (List.contains_iff_mem.1 hc)]

theorem mem_unseen {seen calls : List FieldCall} {x : FieldCall} :
    x ∈ unseen seen calls ↔ x ∈ calls ∧ x ∉ seen := by
  induction calls generalizing seen with
  | nil => simp [unseen]
  | cons c calls ih =>
    by_cases hc : c ∈ seen
    · rw [unseen_cons_of_mem hc, ih]
      grind
    · rw [unseen_cons_of_not_mem hc, List.mem_cons, ih]
      grind

theorem ne_of_mem_unseen {seen calls : List FieldCall} {c x : FieldCall} (hc : c ∈ seen)
    (hx : x ∈ unseen seen calls) : c ≠ x := by
  rintro rfl
  exact (mem_unseen.1 hx).2 hc

theorem nodup_unseen (seen calls : List FieldCall) : (unseen seen calls).Nodup := by
  induction calls generalizing seen with
  | nil => exact List.nodup_nil
  | cons c calls ih =>
    by_cases hc : c ∈ seen
    · rw [unseen_cons_of_mem hc]
      exact ih seen
    · rw [unseen_cons_of_not_mem hc, List.nodup_cons]
      exact ⟨fun hmem => ne_of_mem_unseen List.mem_cons_self hmem rfl, ih _⟩

/-- The calls that are new come in the order of their first places. -/
theorem ordered_unseen (seen calls : List FieldCall) :
    (unseen seen calls).Pairwise fun a b => calls.idxOf a < calls.idxOf b := by
  induction calls generalizing seen with
  | nil => exact List.Pairwise.nil
  | cons c calls ih =>
    -- what is left of the rest differs from a call that was seen, and stands one place further on
    have hlater (seen' : List FieldCall) (hc : c ∈ seen') : (unseen seen' calls).Pairwise fun a b =>
        (c :: calls).idxOf a < (c :: calls).idxOf b := by
      refine (ih seen').imp_of_mem fun {a b} ha hb hab => ?_
      rw [List.idxOf_cons_ne _ (ne_of_mem_unseen hc ha),
        List.idxOf_cons_ne _ (ne_of_mem_unseen hc hb)]
      omega
    by_cases hc : c ∈ seen
    · rw [unseen_cons_of_mem hc]
      exact hlater seen hc
    · rw [unseen_cons_of_not_mem hc, List.pairwise_cons]
      refine ⟨fun x hx => ?_, hlater _ List.mem_cons_self⟩
      rw [List.idxOf_cons_self, List.idxOf_cons_ne _ (ne_of_mem_unseen List.mem_cons_self hx)]
      omega

/-- Leaving out what was seen keeps each call where it comes first. -/
theorem keepsFirsts_unseen (calls : List FieldCall) : KeepsFirsts calls (unseen [] calls) :=
  ⟨nodup_unseen [] calls, fun x => by simp [mem_unseen], ordered_unseen [] calls⟩

theorem head?_unseen (calls : List FieldCall) : (unseen [] calls).head? = calls.head? := by
  cases calls with
  | nil => rfl
  | cons c calls => rfl

end FieldCall

/-! ## The views of a method -/

/-- Field types that cannot be read have a null character in an annotation. -/
theorem causes_of_fieldTypes {c : ClassDecl} {f : Fault} (h : FieldTypes.ofClass c = .error f) :
    f = .nullCharacter ∧ c.Causes f := by
  have htypes : Succeeds (OfNull c.Causes) (FieldTypes.ofClass c) :=
    ClassDecl.CausesOnly.fieldTypes fun _ hf => hf
  rw [h] at htypes
  cases htypes with
  | error hf => exact hf

/-- The call at a place. -/
def CallSite.call (c : CallSite) : FieldCall :=
  ⟨c.receiver, c.method⟩

/-- The call, without the type of its field. -/
def ServiceCall.call (c : ServiceCall) : FieldCall :=
  ⟨c.field, c.method⟩

namespace MethodDecl

variable {m : MethodDecl} {types : FieldTypes} {f : Fault}

theorem map_call_callSites (m : MethodDecl) : m.callSites.map CallSite.call = m.fieldCalls := by
  rw [callSites, fieldCalls, List.map_filterMap]
  congr 1
  funext o
  unfold callSite? Occurrence.fieldCall?
  cases o.expr? with
  | none => rfl
  | some e =>
    change (e.fieldCall?.bind _).map CallSite.call = e.fieldCall?
    cases e.fieldCall? <;> rfl

theorem serviceCalls_of_ok (h : FieldTypes.ofClass m.owner = .ok types) :
    m.serviceCalls = .ok ((FieldCall.unseen [] m.fieldCalls).map fun c =>
      ⟨c.field, c.method, types.typeOf? c.field⟩) := by
  rw [serviceCalls, h]
  rfl

theorem serviceCalls_of_error (h : FieldTypes.ofClass m.owner = .error f) :
    m.serviceCalls = .error f := by
  rw [serviceCalls, h]
  rfl

/-- The search for the first call stops where the list of all calls begins. -/
theorem firstServiceCall?_eq (m : MethodDecl) :
    m.firstServiceCall? =
      m.fieldCalls.head?.elim (.ok none) fun c => (FieldTypes.ofClass m.owner).map fun types =>
        some ⟨c.field, c.method, types.typeOf? c.field⟩ := by
  rw [firstServiceCall?, fieldCalls, List.head?_filterMap]
  cases m.occurrences.findSome? Occurrence.fieldCall? with
  | none => rfl
  | some c => cases FieldTypes.ofClass m.owner <;> rfl

/-- With field types that can be read, the first call is the first of the distinct ones. -/
theorem exists_serviceCalls (h : FieldTypes.ofClass m.owner = .ok types) :
    ∃ calls, m.serviceCalls = .ok calls ∧ m.firstServiceCall? = .ok calls.head? ∧
      KeepsFirsts (m.callSites.map CallSite.call) (calls.map ServiceCall.call) ∧
      ∀ c ∈ calls, c.targetType = types.typeOf? c.field := by
  refine ⟨_, serviceCalls_of_ok h, ?_, ?_, ?_⟩
  · rw [firstServiceCall?_eq, h, List.head?_map, FieldCall.head?_unseen]
    cases m.fieldCalls.head? <;> rfl
  · rw [map_call_callSites, List.map_map]
    have hcall : ServiceCall.call ∘ (fun c : FieldCall =>
        (⟨c.field, c.method, types.typeOf? c.field⟩ : ServiceCall)) = id := rfl
    rw [hcall, List.map_id]
    exact FieldCall.keepsFirsts_unseen m.fieldCalls
  · intro c hc
    obtain ⟨call, -, rfl⟩ := List.mem_map.1 hc
    rfl

/-- Without field types, a first call is looked for all the same. -/
theorem firstServiceCall?_of_error (h : FieldTypes.ofClass m.owner = .error f) :
    m.firstServiceCall? = if m.callSites = [] then .ok none else .error f := by
  have hnil : m.callSites = [] ↔ m.fieldCalls = [] := by
    rw [← map_call_callSites, List.map_eq_nil_iff]
  rw [firstServiceCall?_eq, h]
  cases hcalls : m.fieldCalls with
  | nil => rw [if_pos (hnil.2 hcalls)]; rfl
  | cons c calls => rw [if_neg fun hsites => by rw [hnil.1 hsites] at hcalls; cases hcalls]; rfl

end MethodDecl

/-! ## The views of a session -/

namespace Session

variable {α : Type}

/-- An analysis of an entry method comes to what it makes of the method that is found. -/
theorem result_run_entryMethod (s : Session) (root : Path) (className methodName : String)
    (next : Option MethodDecl → Except Fault α) :
    (perform (run root do liftM (next (← entryMethod className methodName))) s).1 =
      (perform (findClass root className) s).1 >>= fun c =>
        next (c.bind (·.findMethod? methodName)) := by
  have hnext (e : Except Fault α) (t : Session) :
      (perform (run root (Inquiry.ofExcept e)) t).1 = e := by
    cases e <;> rfl
  change (perform (findClass root className >>= fun c => run root _) s).1 = _
  rw [perform_bind]
  rcases perform (findClass root className) s with ⟨f | found, t⟩
  · rfl
  · cases found with
    | none => exact hnext (next none) _
    | some c =>
      simp only [Inquiry.bind, ok_bind, Option.bind_some]
      cases c.findMethod? methodName with
      | none => exact hnext (next none) _
      | some m => exact hnext (next (some m)) _

theorem result_traceServiceCalls (s : Session) (root : Path) (className methodName : String) :
    (perform (run root (traceServiceCalls className methodName)) s).1 =
      (perform (findClass root className) s).1 >>= fun c =>
        (c.bind (·.findMethod? methodName)).elim (.ok none) fun m =>
          m.serviceCalls.map some := by
  rw [← result_run_entryMethod s root className methodName fun m =>
    m.elim (.ok none) fun m => m.serviceCalls.map some]
  congr 3
  unfold traceServiceCalls
  congr 1
  funext m
  cases m with
  | none => rfl
  | some m => cases hm : m.serviceCalls <;> simp only [Option.elim, hm] <;> rfl

theorem result_firstServiceCall (s : Session) (root : Path) (className methodName : String) :
    (perform (run root (firstServiceCall className methodName)) s).1 =
      (perform (findClass root className) s).1 >>= fun c =>
        (c.bind (·.findMethod? methodName)).elim (.ok none) MethodDecl.firstServiceCall? := by
  rw [← result_run_entryMethod s root className methodName fun m =>
    m.elim (.ok none) MethodDecl.firstServiceCall?]
  congr 3
  unfold firstServiceCall
  congr 1
  funext m
  cases m <;> rfl

/-- The views of the calls of a handler agree.  The distinct calls are missing exactly if the class
or the method is; they are the calls at all places without later repetitions, each with the type of
its field, and the first call is the first of them.  Where they part is a class with a null
character in an annotation: its distinct calls cannot be listed, and the first one can be told only
if there are no calls. -/
theorem callViews_agree (s : Session) (root : Path) (className methodName : String) :
    let found := (perform (findClass root className) s).1
    let trace := (perform (run root (traceServiceCalls className methodName)) s).1
    let first := (perform (run root (firstServiceCall className methodName)) s).1
    (trace = .ok none ↔ found = .ok none ∨
        ∃ c, found = .ok (some c) ∧ c.findMethod? methodName = none) ∧
      (trace = .ok none → first = .ok none) ∧
      (∀ f, found = .error f → trace = .error f ∧ first = .error f) ∧
      ∀ c m, found = .ok (some c) → c.findMethod? methodName = some m →
        (∀ types, FieldTypes.ofClass c = .ok types →
          ∃ calls, trace = .ok (some calls) ∧ first = .ok calls.head? ∧
            KeepsFirsts (m.callSites.map CallSite.call) (calls.map ServiceCall.call) ∧
            ∀ call ∈ calls, call.targetType = types.typeOf? call.field) ∧
        ∀ f, FieldTypes.ofClass c = .error f →
          f = .nullCharacter ∧ c.Causes f ∧ trace = .error f ∧
            first = if m.callSites = [] then .ok none else .error f := by
  intro found trace first
  have htrace : trace = found >>= _ := result_traceServiceCalls s root className methodName
  have hfirst : first = found >>= _ := result_firstServiceCall s root className methodName
  clear_value found trace first
  subst htrace hfirst
  rcases found with f | _ | c
  · exact ⟨by simp, by simp, fun _ h => by cases h; exact ⟨rfl, rfl⟩, by simp⟩
  · exact ⟨by simp, fun _ => rfl, by simp, by simp⟩
  · rw [ok_bind, ok_bind, Option.bind_some]
    cases hm : c.findMethod? methodName with
    | none =>
      refine ⟨by simp [hm], fun _ => rfl, by simp, ?_⟩
      rintro _ m ⟨⟩ h
      cases hm.symm.trans h
    | some m =>
      have howner : m.owner = c := ClassDecl.owner_of_mem_methods (List.mem_of_find?_eq_some hm)
      -- A method that is found has a list of calls or a fault, and in neither case no result.
      have hsome : m.serviceCalls.map some ≠ .ok none := by
        cases m.serviceCalls <;> simp [Except.map]
      refine ⟨by simp [hm, hsome], fun h => absurd h hsome, by simp, ?_⟩
      rintro _ _ ⟨⟩ h
      obtain rfl : m = _ := Option.some.inj (hm.symm.trans h)
      refine ⟨fun types htypes => ?_, fun f hf => ?_⟩
      · obtain ⟨calls, hcalls, hhead, hkeeps, htarget⟩ :=
          MethodDecl.exists_serviceCalls (howner ▸ htypes)
        exact ⟨calls, by simp [hcalls, Except.map], hhead, hkeeps, htarget⟩
      · obtain ⟨hnull, hcause⟩ := causes_of_fieldTypes hf
        refine ⟨hnull, hcause, ?_, MethodDecl.firstServiceCall?_of_error (howner ▸ hf)⟩
        simp [MethodDecl.serviceCalls_of_error (howner ▸ hf), Except.map]

end Session

end

namespace Session

/-- A handler that makes one call. -/
theorem callViews_agree_single :
    let root : Path := ⟨"/", ["app"]⟩
    let disk : Disk := ⟨[(["app", "src", "m.py"],
      "class H:\n s: S\n def f(self): self.s.a()".toUTF8.toList)], []⟩
    ∃ s c m types calls, start .default ⟨"/", []⟩ disk (.zero false) = .ok s ∧
      (perform (findClass root "H") s).1 = .ok (some c) ∧ c.findMethod? "f" = some m ∧
      FieldTypes.ofClass c = .ok types ∧ types.typeOf? "s" = some "S" ∧
      m.callSites.map CallSite.call = [⟨"s", "a"⟩] ∧
      (perform (run root (traceServiceCalls "H" "f")) s).1 = .ok (some calls) ∧
      (perform (run root (firstServiceCall "H" "f")) s).1 = .ok calls.head? ∧
      ∀ call, call ∈ calls.map ServiceCall.call ↔ call = ⟨"s", "a"⟩ := by
  intro root disk
  obtain ⟨s, hs, hcheck⟩ := exists_start_of_any .default ⟨"/", []⟩ disk (.zero false) (fun s =>
    (perform (findClass root "H") s).1.toOption.any (·.any fun c =>
      (c.findMethod? "f").any (·.callSites.map CallSite.call = [⟨"s", "a"⟩]) &&
        (FieldTypes.ofClass c).toOption.any (·.typeOf? "s" = some "S")))
    (by decide +kernel)
  obtain ⟨found, hc, hfound⟩ := exists_ok_of_any hcheck
  obtain ⟨c, rfl, hfound⟩ := (Option.any_eq_true _ _).1 hfound
  obtain ⟨hm, htypes⟩ := Bool.and_eq_true_iff.1 hfound
  obtain ⟨m, hm, hsites⟩ := (Option.any_eq_true _ _).1 hm
  obtain ⟨types, htypes, htype⟩ := exists_ok_of_any htypes
  obtain ⟨calls, htrace, hfirst, hkeeps, -⟩ :=
    ((callViews_agree s root "H" "f").2.2.2 c m hc hm).1 types htypes
  have hsites : m.callSites.map CallSite.call = [⟨"s", "a"⟩] := of_decide_eq_true hsites
  refine ⟨s, c, m, types, calls, hs, hc, hm, htypes, of_decide_eq_true htype, hsites, htrace,
    hfirst, fun call => ?_⟩
  rw [hkeeps.mem_iff, hsites, List.mem_singleton]

/-- A null character in an annotation keeps the distinct calls of a handler from being listed, also
where there are none and there is no first one. -/
theorem callViews_differ :
    let root : Path := ⟨"/", ["app"]⟩
    let disk : Disk := ⟨[(["app", "src", "m.py"],
      ("class H:\n x: '\\0'\n def f(self): 0").toUTF8.toList)], []⟩
    ∃ s, start .default ⟨"/", []⟩ disk (.zero false) = .ok s ∧
      (perform (run root (traceServiceCalls "H" "f")) s).1 = .error .nullCharacter ∧
      (perform (run root (firstServiceCall "H" "f")) s).1 = .ok none := by
  intro root disk
  obtain ⟨s, hs, hcheck⟩ := exists_start_of_any .default ⟨"/", []⟩ disk (.zero false) (fun s =>
    (perform (run root (traceServiceCalls "H" "f")) s).1.map (fun _ => ()) =
        .error .nullCharacter &&
      (perform (run root (firstServiceCall "H" "f")) s).1.toOption.any Option.isNone)
    (by decide +kernel)
  obtain ⟨htrace, hfirst⟩ := Bool.and_eq_true_iff.1 hcheck
  obtain ⟨first, hfirst, hnone⟩ := exists_ok_of_any hfirst
  rw [Option.isNone_iff_eq_none.1 hnone] at hfirst
  exact ⟨s, hs, eq_error_of_map (of_decide_eq_true htrace), hfirst⟩

end Session

end RouteLens
