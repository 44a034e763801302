import RouteLens.Command.Run
import RouteLens.Proofs.Ordered
import RouteLens.Proofs.Session.Transparency

/-!
# The two forms of the sample command

The sample command shows the payload of a class, or the payloads of the parameters of a handler.
The payload of a parameter is the one that the command shows for the class that the declared type
names, with the depth of the configuration (`answer_handler_iff_sample`).  A depth that is given
along with a handler is not used, so that with such a depth the two forms may differ.
-/

namespace RouteLens

section

variable {edition : Nat} [CharacterNames edition]

/-! ## Payloads of parameters -/

namespace PayloadRules

variable (r : PayloadRules) (limit : Nat) (classes : String → List ClassDecl)

/-- The declared type of a parameter names a class with fields. -/
def Takes (p : ParamDecl) (n : String) (k : ClassDecl) : Prop :=
  p.typeName = .ok (some n) ∧ (classes n).head? = some k ∧
    (r.isStructured limit k).answer classes = .ok true

/-- No parameter with a name takes a class with fields. -/
def NoneTakes (params : List ParamDecl) (name : String) : Prop :=
  ∀ q ∈ params, q.name = name → ∀ n k, ¬ r.Takes limit classes q n k

/-- The last parameter with a name that takes a class with fields has a value as its payload. -/
def LastPays (params : List ParamDecl) (name : String) (v : Value) : Prop :=
  ∃ before p after n k, params = before ++ p :: after ∧ p.name = name ∧
    r.Takes limit classes p n k ∧ (r.payload limit 0 r.maxDepth k).answer classes = .ok v ∧
    r.NoneTakes limit classes after name

variable {r limit classes} {p : ParamDecl} {ps : List ParamDecl} {name n : String}
  {k : ClassDecl} {v : Value} {done entries : Ordered Value}

theorem Takes.unique {n' : String} {k' : ClassDecl} (h : r.Takes limit classes p n k)
    (h' : r.Takes limit classes p n' k') : n = n' ∧ k = k' := by
  obtain ⟨hname, hhead, -⟩ := h
  obtain ⟨hname', hhead', -⟩ := h'
  rw [hname] at hname'
  cases hname'
  rw [hhead] at hhead'
  cases hhead'
  exact ⟨rfl, rfl⟩

theorem noneTakes_cons : r.NoneTakes limit classes (p :: ps) name ↔
    (p.name = name → ∀ n k, ¬ r.Takes limit classes p n k) ∧ r.NoneTakes limit classes ps name :=
  List.forall_mem_cons

theorem lastPays_cons : r.LastPays limit classes (p :: ps) name v ↔
    r.LastPays limit classes ps name v ∨ (p.name = name ∧ r.NoneTakes limit classes ps name ∧
      ∃ n k, r.Takes limit classes p n k ∧
        (r.payload limit 0 r.maxDepth k).answer classes = .ok v) := by
  constructor
  · rintro ⟨before, q, after, n, k, hps, hname, htakes, hpays, hnone⟩
    cases before with
    | nil =>
      cases hps
      exact .inr ⟨hname, hnone, n, k, htakes, hpays⟩
    | cons p' before =>
      cases hps
      exact .inl ⟨before, q, after, n, k, rfl, hname, htakes, hpays, hnone⟩
  · rintro (⟨before, q, after, n, k, rfl, h⟩ | ⟨hname, hnone, n, k, htakes, hpays⟩)
    · exact ⟨p :: before, q, after, n, k, rfl, h⟩
    · exact ⟨[], p, ps, n, k, rfl, hname, htakes, hpays, hnone⟩

/-- A parameter puts its payload in if it takes a class with fields, and is passed over if not. -/
theorem paramPayloads_cons
    (h : (paramPayloads r limit (p :: ps) done).answer classes = .ok entries) :
    (∃ n k v, r.Takes limit classes p n k ∧
      (r.payload limit 0 r.maxDepth k).answer classes = .ok v ∧
      (paramPayloads r limit ps (Ordered.put p.name v done)).answer classes = .ok entries) ∨
    ((∀ n k, ¬ r.Takes limit classes p n k) ∧
      (paramPayloads r limit ps done).answer classes = .ok entries) := by
  simp only [paramPayloads, Inquiry.answer_seq, Inquiry.answer_lift] at h
  obtain ⟨type, htype, h⟩ := bind_eq_ok_iff.1 h
  cases type with
  | none =>
    refine .inr ⟨?_, h⟩
    rintro n k ⟨hn, -⟩
    rw [htype] at hn
    cases hn
  | some n =>
    simp only [Inquiry.answer_seq, Inquiry.answer_findClass, ok_bind] at h
    cases hk : (classes n).head? with
    | none =>
      rw [hk] at h
      refine .inr ⟨?_, h⟩
      rintro n' k ⟨hn, hhead, -⟩
      rw [htype] at hn
      cases hn
      rw [hk] at hhead
      cases hhead
    | some k =>
      rw [hk] at h
      simp only [Inquiry.answer_seq] at h
      obtain ⟨structured, hstructured, h⟩ := bind_eq_ok_iff.1 h
      cases structured with
      | true =>
        simp only [if_true, Inquiry.answer_seq] at h
        obtain ⟨v, hv, h⟩ := bind_eq_ok_iff.1 h
        exact .inl ⟨n, k, v, ⟨htype, hk, hstructured⟩, hv, h⟩
      | false =>
        refine .inr ⟨?_, h⟩
        rintro n' k' ⟨hn, hhead, htrue⟩
        rw [htype] at hn
        cases hn
        rw [hk] at hhead
        cases hhead
        rw [hstructured] at htrue
        cases htrue

/-- A name has the payload of its last parameter that takes a class with fields, and what it had
before if there is none. -/
theorem get?_paramPayloads
    (h : (paramPayloads r limit ps done).answer classes = .ok entries) (name : String) (v : Value) :
    entries.get? name = some v ↔ r.LastPays limit classes ps name v ∨
      (r.NoneTakes limit classes ps name ∧ done.get? name = some v) := by
  induction ps generalizing done with
  | nil =>
    cases h
    simp [LastPays, NoneTakes]
  | cons p ps ih =>
    rw [lastPays_cons, noneTakes_cons]
    rcases paramPayloads_cons h with ⟨n, k, w, htakes, hpays, h⟩ | ⟨hnot, h⟩
    · rw [ih h, Ordered.get?_put]
      by_cases hname : p.name = name
      · have hw : (some w = some v) ↔ ∃ n k, r.Takes limit classes p n k ∧
            (r.payload limit 0 r.maxDepth k).answer classes = .ok v := by
          constructor
          · rintro ⟨⟩
            exact ⟨n, k, htakes, hpays⟩
          · rintro ⟨n', k', htakes', hpays'⟩
            obtain ⟨rfl, rfl⟩ := htakes.unique htakes'
            exact congrArg some (Except.ok.inj (hpays.symm.trans hpays'))
        have hsome : ¬ ∀ n k, ¬ r.Takes limit classes p n k := fun hnot => hnot n k htakes
        simp only [hname, if_true, hw, true_and, true_imp_iff, hsome, false_and, or_false]
      · simp [hname, Ne.symm hname]
    · rw [ih h]
      have hnone : ¬ ∃ n k, r.Takes limit classes p n k ∧
          (r.payload limit 0 r.maxDepth k).answer classes = .ok v := by
        rintro ⟨n, k, htakes, -⟩
        exact hnot n k htakes
      simp only [hnone, and_false, or_false]
      exact or_congr_right (and_congr_left fun _ =>
        ⟨fun hrest => ⟨fun _ => hnot, hrest⟩, fun hrest => hrest.2⟩)

theorem nodup_keys_paramPayloads
    (h : (paramPayloads r limit ps done).answer classes = .ok entries)
    (hdone : done.keys.Nodup) : entries.keys.Nodup := by
  induction ps generalizing done with
  | nil =>
    cases h
    exact hdone
  | cons p ps ih =>
    rcases paramPayloads_cons h with ⟨n, k, v, -, -, h⟩ | ⟨-, h⟩
    · exact ih h (Ordered.nodup_keys_put hdone)
    · exact ih h hdone

end PayloadRules

/-! ## Payloads that a session finds -/

namespace Session

variable {c : Context} {s : Session} {r root : Path} {rules : PayloadRules}

theorem perform_payload (h : Coherent c s) (hr : Path.resolve c.directory r = root)
    (hrules : PayloadRules.ofConfig c.rules.config = .ok rules) (className : String)
    (depth : Option Int) :
    (perform (ask r (.payload className depth)) s).1 =
      projectOf c .empty root >>= fun kp =>
        (synthesize rules (kp.2.size c.disk + 1) className depth).answer
          (kp.2.declarations c.disk c.languages) := by
  have hlimited := Yields.limited h hr
    (fun classes _ _ hl hl' => synthesize_congr hl hl' rules className depth)
  rw [ask, samplePayload, perform_bind_ok (perform_get s), h.rules_eq, hrules,
    perform_bind_ok (perform_lift _ s)]
  exact hlimited.result_eq

theorem perform_handlerPayloads (h : Coherent c s) (hr : Path.resolve c.directory r = root)
    (className methodName : String) :
    (perform (ask r (.handlerPayloads className methodName)) s).1 =
      projectOf c .empty root >>= fun kp =>
        (handlerPayloads c.rules.config (kp.2.size c.disk + 1) className methodName).answer
          (kp.2.declarations c.disk c.languages) := by
  have hlimited := Yields.limited h hr (fun classes _ _ hl hl' =>
    handlerPayloads_congr hl hl' c.rules.config className methodName)
  rw [ask, sampleHandler, perform_bind_ok (perform_get s), h.rules_eq]
  exact hlimited.result_eq

/-- A name leads to a class with fields in the project of a root, as a session that starts finds
it. -/
def HasFields (c : Context) (rules : PayloadRules) (root : Path) (name : String) : Prop :=
  ∃ classes limit k, classesOf c root = .ok classes ∧ PayloadRules.Suffices classes limit ∧
    (classes name).head? = some k ∧ (rules.isStructured limit k).answer classes = .ok true

theorem exists_takes_iff {classes : String → List ClassDecl} {limit : Nat} {p : ParamDecl}
    {name : String} (hclasses : classesOf c root = .ok classes)
    (hlimit : PayloadRules.Suffices classes limit) :
    (∃ k, rules.Takes limit classes p name k) ↔
      p.typeName = .ok (some name) ∧ HasFields c rules root name := by
  constructor
  · rintro ⟨k, hname, hk, hstructured⟩
    exact ⟨hname, classes, limit, k, hclasses, hlimit, hk, hstructured⟩
  · rintro ⟨hname, classes', limit', k, hclasses', hlimit', hk, hstructured⟩
    rw [hclasses] at hclasses'
    cases hclasses'
    rw [PayloadRules.isStructured_congr hlimit' hlimit ⟨name, hk⟩] at hstructured
    exact ⟨k, hname, hk, hstructured⟩

end Session

/-! ## The command -/

namespace Command

open Session

variable {w : Setting} {config : Config} {command root : String} {s : Session}

theorem exists_of_map_eq_ok {α β : Type} {x : Except Fault α} {f : α → β} {b : β}
    (h : x.map f = .ok b) : ∃ a, x = .ok a ∧ f a = b := by
  cases x with
  | error e => cases h
  | ok a => exact ⟨a, rfl, Except.ok.inj h⟩

theorem exists_answer_iff {q : Question} {x : Option Value} :
    (∃ notes, answer w config ⟨command, root, q⟩ = .ok (x, notes)) ↔
      ∃ s, Session.start config w.directory w.disk w.clock = .ok s ∧
        (perform (q.answer (.ofText root) w.time) s).1 = .ok x := by
  constructor
  · rintro ⟨notes, h⟩
    obtain ⟨s, hs, h⟩ := bind_eq_ok_iff.1 h
    obtain ⟨y, hy, h⟩ := bind_eq_ok_iff.1 h
    cases h
    exact ⟨s, hs, hy⟩
  · rintro ⟨s, hs, h⟩
    exact ⟨_, bind_eq_ok_iff.2 ⟨s, hs, bind_eq_ok_iff.2 ⟨x, h, rfl⟩⟩⟩

theorem perform_answer_sample (className : String) (depth : Option Int) (r : Path) (time : String)
    (s : Session) :
    (perform ((Question.sample className depth).answer r time) s).1 =
      (perform (ask r (.payload className depth)) s).1 := by
  rw [Question.answer, perform_bind_ok (perform_get s)]
  rfl

theorem perform_answer_sampleHandler (className methodName : String) (r : Path) (time : String)
    (s : Session) :
    (perform ((Question.sampleHandler className methodName).answer r time) s).1 =
      (perform (ask r (.handlerPayloads className methodName)) s).1.map
        (Option.map Value.record) := by
  rw [Question.answer, perform_bind_ok (perform_get s)]
  simp only
  rw [← map_eq_pure_bind, perform_map]
  rfl

/-- With a handler, the command asks for the payloads of the handler, whatever depth is given. -/
theorem questionOf_handler {g : Given} {methodName : String}
    (h : nonEmpty? (g.last? "--handler") = some methodName) :
    questionOf "sample" g = .sampleHandler (g.placed.getD 1 "") methodName := by
  simp [questionOf, h]

variable {rules : PayloadRules} {key : ProjectKey} {project : Project}

/-- The command shows a value for a class if the class is there and the value is its payload. -/
theorem exists_answer_sample_iff
    (hs : Session.start config w.directory w.disk w.clock = .ok s)
    (hrules : PayloadRules.ofConfig s.rules.config = .ok rules)
    (hproject : projectOf s.context .empty (Path.resolve w.directory (.ofText root)) =
      .ok (key, project)) (className : String) (depth : Option Int) (x : Value) :
    (∃ notes, answer w config ⟨command, root, .sample className depth⟩ = .ok (some x, notes)) ↔
      ∃ k, (project.declarations s.disk s.languages className).head? = some k ∧
        (rules.payload (project.size s.disk + 1) 0 (depth.getD rules.maxDepth) k).answer
          (project.declarations s.disk s.languages) = .ok x := by
  obtain ⟨hdirectory, -, hempty⟩ := views_of_start hs
  have hcoherent : Coherent s.context s := coherent_of_empty rfl hempty
  have hr : Path.resolve s.context.directory (.ofText root) =
      Path.resolve w.directory (.ofText root) := by rw [← hdirectory]; rfl
  have hperform : (perform (ask (.ofText root) (.payload className depth)) s).1 =
      (synthesize rules (project.size s.disk + 1) className depth).answer
        (project.declarations s.disk s.languages) := by
    rw [perform_payload hcoherent hr hrules, hproject]
    rfl
  have hsynthesize : (synthesize rules (project.size s.disk + 1) className depth).answer
      (project.declarations s.disk s.languages) = .ok (some x) ↔
      ∃ k, (project.declarations s.disk s.languages className).head? = some k ∧
        (rules.payload (project.size s.disk + 1) 0 (depth.getD rules.maxDepth) k).answer
          (project.declarations s.disk s.languages) = .ok x := by
    simp only [synthesize, Inquiry.answer_seq, Inquiry.answer_findClass, ok_bind]
    cases (project.declarations s.disk s.languages className).head? with
    | none => simp
    | some k =>
      simp only [Inquiry.answer_seq, bind_eq_ok_iff, Inquiry.answer_pure, Except.ok.injEq,
        Option.some.injEq, exists_eq_right]
      exact ⟨fun h => ⟨k, rfl, h⟩, by rintro ⟨k', rfl, h⟩; exact h⟩
  rw [exists_answer_iff, ← hsynthesize, ← hperform]
  constructor
  · rintro ⟨s', hs', h⟩
    rw [hs] at hs'
    cases hs'
    rwa [perform_answer_sample] at h
  · intro h
    exact ⟨s, hs, by rwa [perform_answer_sample]⟩

/-- What the command shows for a handler.  A parameter has a payload if its declared type names a
class with fields, and the payload is the one that the command shows for that class with the depth
of the configuration; of several parameters with one name the last one counts.  A depth that is
given along with the handler changes nothing. -/
theorem answer_handler_iff_sample {g : Given} {methodName : String} {v : Value} {notes : List Note}
    (hhandler : nonEmpty? (g.last? "--handler") = some methodName)
    (hanswer : answer w config ⟨"sample", root, questionOf "sample" g⟩ = .ok (some v, notes)) :
    (∀ g' : Given, g'.placed = g.placed → nonEmpty? (g'.last? "--handler") = some methodName →
      answer w config ⟨"sample", root, questionOf "sample" g'⟩ = .ok (some v, notes)) ∧
    ∃ (s : Session) (rules : PayloadRules) (m : MethodDecl) (payloads : Ordered Value),
      Session.start config w.directory w.disk w.clock = .ok s ∧
      PayloadRules.ofConfig s.rules.config = .ok rules ∧
      (perform (Session.run (.ofText root)
        (Inquiry.findMethod (g.placed.getD 1 "") methodName)) s).1 = .ok (some m) ∧
      v = .record payloads ∧ payloads.keys.Nodup ∧
      ∀ name x, payloads.get? name = some x ↔
        ∃ before p after className, m.paramDecls = before ++ p :: after ∧ p.name = name ∧
          p.typeName = .ok (some className) ∧
          HasFields s.context rules (Path.resolve w.directory (.ofText root)) className ∧
          (∀ q ∈ after, q.name = name → ∀ other, q.typeName = .ok (some other) →
            ¬ HasFields s.context rules (Path.resolve w.directory (.ofText root)) other) ∧
          ∀ depth : Option Int, depth.getD rules.maxDepth = rules.maxDepth →
            ∃ notes, answer w config ⟨"sample", root, .sample className depth⟩ =
              .ok (some x, notes) := by
  refine ⟨fun g' hplaced hhandler' => ?_, ?_⟩
  · rw [questionOf_handler hhandler', hplaced, ← questionOf_handler hhandler]
    exact hanswer
  rw [questionOf_handler hhandler] at hanswer
  obtain ⟨s, hs, hperform⟩ := exists_answer_iff.1 ⟨notes, hanswer⟩
  obtain ⟨hdirectory, -, hempty⟩ := views_of_start hs
  have hcoherent : Coherent s.context s := coherent_of_empty rfl hempty
  have hr : Path.resolve s.context.directory (.ofText root) =
      Path.resolve w.directory (.ofText root) := by rw [← hdirectory]; rfl
  rw [perform_answer_sampleHandler, perform_handlerPayloads hcoherent hr] at hperform
  obtain ⟨found, hfound, hv⟩ := exists_of_map_eq_ok hperform
  obtain ⟨payloads, rfl, rfl⟩ := Option.map_eq_some_iff.1 hv
  obtain ⟨⟨key, project⟩, hproject, hfound⟩ := bind_eq_ok_iff.1 hfound
  have hclasses : classesOf s.context (Path.resolve w.directory (.ofText root)) =
      .ok (project.declarations s.disk s.languages) := by
    rw [classesOf, hproject]
    rfl
  have hlimit : PayloadRules.Suffices (project.declarations s.disk s.languages)
      (project.size s.disk + 1) := (Project.suffices_size ..).mono (Nat.le_succ _)
  simp only [handlerPayloads, Inquiry.answer_seq] at hfound
  obtain ⟨method, hmethod, hfound⟩ := bind_eq_ok_iff.1 hfound
  cases method with
  | none => cases hfound
  | some m =>
    simp only [Inquiry.answer_seq, Inquiry.answer_lift] at hfound
    obtain ⟨rules, hrules, hfound⟩ := bind_eq_ok_iff.1 hfound
    obtain ⟨entries, hentries, hfound⟩ := bind_eq_ok_iff.1 hfound
    cases hfound
    refine ⟨s, rules, m, payloads, hs, hrules, ?_, rfl,
      PayloadRules.nodup_keys_paramPayloads hentries List.nodup_nil, fun name x => ?_⟩
    · rw [(Yields.run _ hcoherent hr).result_eq, hclasses, Inquiry.answerIn_ok]
      exact hmethod
    · rw [PayloadRules.get?_paramPayloads hentries]
      constructor
      · rintro (⟨before, p, after, n, k, hparams, hname, htakes, hpays, hnone⟩ | ⟨-, hnil⟩)
        · refine ⟨before, p, after, n, hparams, hname,
            (exists_takes_iff hclasses hlimit).1 ⟨k, htakes⟩ |>.1,
            (exists_takes_iff hclasses hlimit).1 ⟨k, htakes⟩ |>.2, ?_, fun depth hdepth => ?_⟩
          · intro q hq hqname other hother hfields
            obtain ⟨k', htakes'⟩ := (exists_takes_iff hclasses hlimit).2 ⟨hother, hfields⟩
            exact hnone q hq hqname other k' htakes'
          · refine (exists_answer_sample_iff hs hrules hproject ..).2 ⟨k, htakes.2.1, ?_⟩
            rw [hdepth]
            exact hpays
        · cases hnil
      · rintro ⟨before, p, after, n, hparams, hname, htype, hfields, hnone, hsample⟩
        obtain ⟨k, htakes⟩ := (exists_takes_iff hclasses hlimit).2 ⟨htype, hfields⟩
        obtain ⟨k', hk', hpays⟩ :=
          (exists_answer_sample_iff hs hrules hproject ..).1 (hsample none rfl)
        rw [htakes.2.1] at hk'
        cases hk'
        refine .inl ⟨before, p, after, n, k, hparams, hname, htakes, hpays, ?_⟩
        intro q hq hqname other k' htakes'
        obtain ⟨hother, hfields'⟩ := (exists_takes_iff hclasses hlimit).1 ⟨k', htakes'⟩
        exact hnone q hq hqname other hother hfields'

/-! ## A depth given with a handler -/

/-- A handler with a parameter whose class holds another one. -/
def nestedSetting : Setting where
  directory := ⟨"/", []⟩
  disk := ⟨[(["pyproject.toml"], []), (["m.py"],
    "class H:\n def f(self, p: A): 0\nclass A:\n b: B\nclass B:\n x: int".toUTF8.toList)], []⟩
  clock := .zero false
  time := ""

/-- The words of a command line that give a handler and a depth. -/
def handlerWords : Given where
  values := [("--handler", "f"), ("--max-depth", "0")]
  placed := [".", "H"]

theorem exists_answer_of_any (w : Setting) (config : Config) (root : String) (q : Question)
    (check : Value → Bool)
    (h : (answer w config ⟨"sample", root, q⟩).toOption.any fun r => r.1.any check) :
    ∃ v notes, answer w config ⟨"sample", root, q⟩ = .ok (some v, notes) ∧ check v = true := by
  obtain ⟨⟨x, notes⟩, hanswer, hcheck⟩ := exists_ok_of_any h
  obtain ⟨v, rfl, hv⟩ := (Option.any_eq_true _ _).1 hcheck
  exact ⟨v, notes, hanswer, hv⟩

end Command

end

namespace Command

theorem exists_answer_handlerWords :
    ∃ v notes, answer nestedSetting .default ⟨"sample", ".", questionOf "sample" handlerWords⟩ =
        .ok (some v, notes) ∧
      v.toJson =
        .ok "\x7b\n  \"p\": \x7b\n    \"b\": \x7b\n      \"x\": 1\n    \x7d\n  \x7d\n\x7d" := by
  obtain ⟨v, notes, hanswer, hcheck⟩ := exists_answer_of_any nestedSetting .default "."
    (questionOf "sample" handlerWords) (fun v => v.toJson =
      .ok "\x7b\n  \"p\": \x7b\n    \"b\": \x7b\n      \"x\": 1\n    \x7d\n  \x7d\n\x7d")
    (by decide +kernel)
  exact ⟨v, notes, hanswer, of_decide_eq_true hcheck⟩

/-- A class inside the class of a parameter is built although the depth is zero, as it is when the
command is asked for the class without a depth. -/
theorem answer_handler_iff_sample_nested :
    nonEmpty? (handlerWords.last? "--handler") = some "f" ∧
    ∃ v notes, answer nestedSetting .default ⟨"sample", ".", questionOf "sample" handlerWords⟩ =
        .ok (some v, notes) ∧
      ∃ payloads name x className notes', v = .record payloads ∧
        Ordered.get? payloads name = some x ∧
        answer nestedSetting .default ⟨"sample", ".", .sample className none⟩ =
          .ok (some x, notes') := by
  have hhandler : nonEmpty? (handlerWords.last? "--handler") = some "f" := by decide +kernel
  obtain ⟨v, notes, hanswer, hshown⟩ := exists_answer_handlerWords
  obtain ⟨-, s, rules, m, payloads, -, -, -, rfl, -, hiff⟩ :=
    answer_handler_iff_sample hhandler hanswer
  refine ⟨hhandler, _, notes, hanswer, payloads, ?_⟩
  cases payloads with
  | nil => exact absurd hshown (by decide +kernel)
  | cons entry payloads =>
    have hfirst : Ordered.get? (entry :: payloads) entry.1 = some entry.2 := by
      simp [Ordered.get?]
    obtain ⟨before, p, after, className, -, -, -, -, -, hsample⟩ := (hiff _ _).1 hfirst
    obtain ⟨notes', hsample⟩ := hsample none rfl
    exact ⟨entry.1, entry.2, className, notes', rfl, hfirst, hsample⟩

/-- With one depth for both forms, the parameter has a class built in it that the class of the
parameter does not have. -/
theorem handler_payload_ne_sample :
    ∃ v x notes notes',
      answer nestedSetting .default ⟨"sample", ".", questionOf "sample" handlerWords⟩ =
        .ok (some v, notes) ∧
      v.toJson =
        .ok "\x7b\n  \"p\": \x7b\n    \"b\": \x7b\n      \"x\": 1\n    \x7d\n  \x7d\n\x7d" ∧
      answer nestedSetting .default ⟨"sample", ".", questionOf "sample"
        { values := [("--max-depth", "0")], placed := [".", "A"] }⟩ = .ok (some x, notes') ∧
      x.toJson = .ok "\x7b\n  \"b\": \x7b\x7d\n\x7d" := by
  obtain ⟨v, notes, hanswer, hshown⟩ := exists_answer_handlerWords
  obtain ⟨x, notes', hanswer', hcheck⟩ := exists_answer_of_any nestedSetting .default "."
    (questionOf "sample" { values := [("--max-depth", "0")], placed := [".", "A"] })
    (fun x => x.toJson = .ok "\x7b\n  \"b\": \x7b\x7d\n\x7d") (by decide +kernel)
  exact ⟨v, x, notes, notes', hanswer, hshown, hanswer', of_decide_eq_true hcheck⟩

end Command

end RouteLens
