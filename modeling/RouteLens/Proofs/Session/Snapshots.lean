import RouteLens.Proofs.Project.FirstDeclaration
import RouteLens.Proofs.Session.BuildChange

/-!
# Projects that are read as a whole

A project without a build file is read as a whole when it is loaded, and what was read stays.  From
then on, and until the root is dropped, all answers about its files come from the disk of that
moment.

* A project is complete if every file of it was read, usable or not (`Project.Complete`).  No search
  adds anything to such a project, on whatever disk it is made.
* `Snapshot` is the invariant: the complete project is kept under its root, and every place that is
  remembered is that of a first declaration.
* `AnswersFrom` says what the answers are: those of the files that the disk had, in path order.
-/

namespace RouteLens

section

variable {edition : Nat} [CharacterNames edition]

namespace Project

variable {d : Disk} {ls : Languages} {p : Project} {rules : DiscoveryRules} {root : Path}
  {notes : List Note}

/-! ## Complete projects -/

/-- Every file of a project was read, or found to be unusable. -/
def Complete (p : Project) : Prop :=
  ∀ x ∈ p.files, (p.units.lookup x).isSome

namespace Complete

variable (h : p.Complete) (d : Disk) (ls : Languages)
include h

theorem remember_eq (path : Path) : p.remember d ls path = p := by
  unfold remember
  rw [if_neg]
  simp only [Bool.and_eq_true, Option.isNone_iff_eq_none, List.contains_iff_mem]
  rintro ⟨hnone, hmem⟩
  have hread := h path hmem
  rw [hnone] at hread
  cases hread

theorem foldl_remember_eq (paths : List Path) : paths.foldl (remember d ls) p = p := by
  induction paths with
  | nil => rfl
  | cons x paths ih => rw [List.foldl_cons, h.remember_eq, ih]

theorem search_eq (name : String) (paths : List Path) : search d ls name p paths = p := by
  induction paths with
  | nil => rfl
  | cons x paths ih =>
    rw [search, h.remember_eq, ih, ite_self]

/-- What a complete project gives for a path does not depend on the disk. -/
theorem unitOf_eq (d' : Disk) (ls' : Languages) (path : Path) :
    p.unitOf d ls path = p.unitOf d' ls' path := by
  unfold unitOf
  cases hread : p.units.lookup path with
  | some u => rfl
  | none =>
    have hmem : path ∉ p.files := fun hmem => by
      have hsome := h path hmem
      rw [hread] at hsome
      cases hsome
    simp [hmem]

end Complete

theorem lookup_foldl_remember {paths : List Path} {x : Path} (hx : x ∈ paths) (hmem : x ∈ p.files) :
    ((paths.foldl (remember d ls) p).units.lookup x).isSome := by
  induction paths generalizing p with
  | nil => cases hx
  | cons y paths ih =>
    rw [List.foldl_cons]
    rcases List.mem_cons.1 hx with rfl | hx
    · have hread := (extends_foldl_remember d ls (p.remember d ls x) paths).kept x _
        (lookup_remember_self d ls hmem)
      rw [hread]
      rfl
    · exact ih hx (by rwa [files_remember])

/-- Without a build file, a project is complete when it is loaded. -/
theorem complete_of_load (h : load d ls rules root = .ok (p, notes))
    (hbuild : rules.findBuildFile d root = .ok none) : p.Complete := by
  rw [load, hbuild, ok_bind] at h
  obtain ⟨text, -, h⟩ := bind_eq_ok_iff.1 h
  obtain ⟨files, -, h⟩ := bind_eq_ok_iff.1 h
  obtain ⟨notes', hrun⟩ := unitsOf_run d ls ⟨root, files, none, []⟩ files []
  rw [hrun] at h
  cases h
  intro x hx
  rw [(extends_foldl_remember d ls _ files).files_eq] at hx
  exact lookup_foldl_remember hx hx

end Project

namespace Session

variable {c : Context} {m : Memory} {root r : Path} {key : ProjectKey} {p : Project}
  {s t : Session} {f : Fault} {R : Session → Session → Prop}

/-! ## Complete projects of a session -/

/-- The project of a root, if it has one, is complete. -/
def Settled (c : Context) (m : Memory) (root : Path) : Prop :=
  ∀ key p, projectOf c m root = .ok (key, p) → p.Complete

theorem project_lookUp (h : p.Complete) (d : Disk) (ls : Languages) (name : String)
    (place : Option Path) : (lookUp d ls name p place).project = p := by
  have hplace : (place.map (p.remember d ls)).getD p = p := by
    cases place with
    | none => rfl
    | some path => exact h.remember_eq d ls path
  unfold lookUp
  split
  · exact hplace
  · simp only [hplace, h.search_eq]

/-- What a query about a root leaves: the context, and the project of the root if it is complete. -/
structure KeepsProject (root : Path) (s t : Session) : Prop where
  context_eq : t.context = s.context
  projectOf_eq : Settled s.context s.memory root →
    projectOf s.context t.memory root = projectOf s.context s.memory root

theorem fullyClosed_keepsProject (root : Path) : FullyClosed root (KeepsProject root) := by
  refine .of_touches (G := fun c m m' =>
      Settled c m root → projectOf c m' root = projectOf c m root)
    ⟨fun h => ⟨h.1, h.2⟩, fun h => ⟨h.1, h.2⟩⟩ (fun hsame hsame' h => ?_) fun htouches h => ?_
  · refine (hsame' ?_).trans (hsame h)
    rw [Settled, hsame h]
    exact h
  · cases htouches with
    | nothing => rfl
    | files paths hp =>
      rw [(h _ _ hp).foldl_remember_eq, hp]
      exact projectOf_of_kept hp Memory.project_keep
    | lookUp name hp =>
      rw [project_lookUp (h _ _ hp), hp]
      exact projectOf_of_kept hp Memory.project_keep
    | result className methodName e => rfl

/-! ## Events -/

/-- Something that happens to a session: a step, a question for one file or for all files of a root,
or extensions that become known as those of a language. -/
inductive Event where
  | step (e : Step)
  | unit (root path : Path)
  | units (root : Path)
  | register (language : String) (extensions : List String)

namespace Event

/-- The session after an event. -/
def apply : Event → Session → Session
  | .step e, s => e.apply s
  | .unit root path, s => (perform (unitAt root path) s).2
  | .units root, s => (perform (Session.loadAll root) s).2
  | .register language extensions, s =>
    { s with languages := s.languages.register language extensions }

/-- Whether an event drops what is kept for a root. -/
def drops (directory root : Path) : Event → Bool
  | .step e => e.drops directory root
  | _ => false

/-- No event changes the rules of a session or where it runs. -/
theorem apply_fixed (e : Event) (s : Session) :
    (e.apply s).rules = s.rules ∧ (e.apply s).directory = s.directory := by
  have hfixed {roots : Path → Prop} {t : Session} (h : AgreeOn roots s t) :
      t.rules = s.rules ∧ t.directory = s.directory :=
    ⟨h.rules_eq.symm, h.directory_eq.symm⟩
  cases e with
  | step e =>
    have hcontext := context_apply e s
    cases e <;> exact ⟨congrArg Context.rules hcontext, congrArg Context.directory hcontext⟩
  | unit r path => exact hfixed ((fullyClosed_agreeOn _).unitAt s r path rfl)
  | units r => exact hfixed ((fullyClosed_agreeOn _).loadAll rfl)
  | register language extensions => exact ⟨rfl, rfl⟩

theorem effect (root : Path) (e : Event) (s : Session) :
    Effect root (e.drops s.directory root) s (e.apply s) := by
  cases e with
  | step e => exact e.effect root s
  | unit r path =>
    by_cases hr : Path.resolve s.directory r = root
    · exact .asked fun R hR => hR.unitAt s r path hr
    · exact .of_other ((fullyClosed_agreeOn _).unitAt s r path rfl) hr
  | units r =>
    by_cases hr : Path.resolve s.directory r = root
    · exact .asked fun R hR => hR.loadAll hr
    · exact .of_other ((fullyClosed_agreeOn _).loadAll rfl) hr
  | register language extensions => exact .apart (fun _ => rfl) fun _ => rfl

end Event

/-- The session after some events. -/
def through (s : Session) (events : List Event) : Session :=
  events.foldl (fun s e => e.apply s) s

theorem through_append (s : Session) (first second : List Event) :
    s.through (first ++ second) = (s.through first).through second :=
  List.foldl_append ..

theorem through_fixed (events : List Event) (s : Session) :
    (s.through events).rules = s.rules ∧ (s.through events).directory = s.directory := by
  induction events generalizing s with
  | nil => exact ⟨rfl, rfl⟩
  | cons e events ih =>
    have hrest := ih (e.apply s)
    rw [(e.apply_fixed s).1, (e.apply_fixed s).2] at hrest
    exact hrest

/-- No build file is found for a root, neither now nor after any of some events. -/
def Unbuilt (root : Path) : Session → List Event → Prop
  | s, [] => buildOf s.context root = .ok none
  | s, e :: events => buildOf s.context root = .ok none ∧ Unbuilt root (e.apply s) events

instance decidableUnbuilt (root : Path) :
    (s : Session) → (events : List Event) → Decidable (Unbuilt root s events)
  | _, [] => inferInstanceAs (Decidable (_ = _))
  | s, e :: events =>
    have := decidableUnbuilt root (e.apply s) events
    inferInstanceAs (Decidable (_ ∧ _))

namespace Unbuilt

variable {e : Event} {events before later : List Event}

theorem now (h : Unbuilt root s events) : buildOf s.context root = .ok none := by
  cases events with
  | nil => exact h
  | cons e events => exact h.1

theorem through (h : Unbuilt root s (before ++ later)) :
    Unbuilt root (s.through before) later := by
  induction before generalizing s with
  | nil => exact h
  | cons e before ih => exact ih h.2

theorem left (h : Unbuilt root s (before ++ later)) : Unbuilt root s before := by
  induction before generalizing s with
  | nil => exact h.now
  | cons e before ih => exact ⟨h.1, ih h.2⟩

theorem last (h : Unbuilt root s events) : buildOf (s.through events).context root = .ok none := by
  rw [← List.append_nil events] at h
  exact h.through

end Unbuilt

variable {e : Event} {events : List Event}

theorem Placed.event (h : Placed s.context s.memory root)
    (hbuild : buildOf (e.apply s).context root = buildOf s.context root) :
    Placed (e.apply s).context (e.apply s).memory root := by
  cases e.effect root s with
  | dropped hdrops hmemory =>
    rw [hmemory]
    exact placed_of_forgotten (fun _ => if_pos rfl) fun _ => if_pos rfl
  | asked hwithin =>
    obtain ⟨hcontext, hgain⟩ := hwithin _ (fullyClosed_gains root)
    rw [hcontext]
    exact (hgain h).placed
  | apart hproject hplace => exact h.congr hbuild hproject hplace

theorem Placed.through (h : Placed s.context s.memory root) (hbuild : Unbuilt root s events) :
    Placed (s.through events).context (s.through events).memory root := by
  induction events generalizing s with
  | nil => exact h
  | cons e events ih => exact ih (h.event (hbuild.2.now.trans hbuild.1.symm)) hbuild.2

/-! ## The moment of loading -/

/-- A project that an event puts in place was loaded from the disk of that moment. -/
theorem exists_load (hbuild : buildOf s.context root = .ok none)
    (hnew : s.memory.project ⟨root, none⟩ = none)
    (hkept : (e.apply s).memory.project ⟨root, none⟩ = some p) :
    ∃ rules notes, DiscoveryRules.ofConfig s.rules.config = .ok rules ∧
      rules.findBuildFile s.disk root = .ok none ∧
      Project.load s.disk s.languages rules root = .ok (p, notes) := by
  obtain ⟨rules, hrules, hfind⟩ := bind_eq_ok_iff.1 hbuild
  cases e.effect root s with
  | dropped hdrops hmemory =>
    rw [hmemory] at hkept
    simp [Memory.drop] at hkept
  | apart hproject hplace =>
    rw [hproject, hnew] at hkept
    cases hkept
  | asked hwithin =>
    -- Nothing is kept, so that the project of the root before the query is the one to be loaded.
    have hload {key : ProjectKey} {q : Project}
        (hq : projectOf s.context s.memory root = .ok (key, q)) :
        ∃ notes, Project.load s.disk s.languages rules root = .ok (q, notes) := by
      obtain ⟨rules', build, hrules', hfind', -, hq⟩ := projectOf_eq_ok_iff.1 hq
      cases hrules.symm.trans hrules'
      cases hfind.symm.trans hfind'
      exact hq.elim (fun hq => by rw [hnew] at hq; cases hq) And.right
    have hsettled : Settled s.context s.memory root := fun key q hq => by
      obtain ⟨notes, hq⟩ := hload hq
      exact Project.complete_of_load hq hfind
    have hsame := (hwithin _ (fullyClosed_keepsProject root)).projectOf_eq hsettled
    rw [projectOf_of_buildOf hbuild hkept] at hsame
    obtain ⟨notes, hp⟩ := hload hsame.symm
    exact ⟨rules, notes, hrules, hfind, hp⟩

/-! ## Snapshots -/

/-- A complete project is kept for a root, and the places that are remembered are right. -/
structure Snapshot (root : Path) (p : Project) (s : Session) : Prop where
  complete : p.Complete
  kept : s.memory.project ⟨root, none⟩ = some p
  placed : Placed s.context s.memory root

/-- No event changes a snapshot unless it drops the root. -/
theorem Snapshot.event (h : Snapshot root p s) (hbuild : buildOf s.context root = .ok none)
    (hbuild' : buildOf (e.apply s).context root = .ok none)
    (hdrops : e.drops s.directory root = false) : Snapshot root p (e.apply s) := by
  refine ⟨h.complete, ?_, h.placed.event (hbuild'.trans hbuild.symm)⟩
  cases e.effect root s with
  | dropped hdropped => rw [hdropped] at hdrops; cases hdrops
  | apart hproject hplace => rw [hproject, h.kept]
  | asked hwithin =>
    have hp := projectOf_of_buildOf hbuild h.kept
    have hsettled : Settled s.context s.memory root := fun key q hq => by
      cases hp.symm.trans hq
      exact h.complete
    have hsame := (hwithin _ (fullyClosed_keepsProject root)).projectOf_eq hsettled
    -- What `KeepsProject` gives may be kept or loaded anew; that it is kept comes from `Gains`.
    obtain ⟨q, hq, -⟩ := ((hwithin _ (fullyClosed_gains root)).2 h.placed).project none p h.kept
    rw [projectOf_of_buildOf hbuild hq, hp] at hsame
    cases hsame
    exact hq

theorem Snapshot.through (h : Snapshot root p s) (hbuild : Unbuilt root s events)
    (hdrops : ∀ e ∈ events, e.drops s.directory root = false) :
    Snapshot root p (s.through events) := by
  induction events generalizing s with
  | nil => exact h
  | cons e events ih =>
    refine ih (h.event hbuild.1 hbuild.2.now (hdrops e List.mem_cons_self)) hbuild.2 ?_
    intro e' he'
    rw [(e.apply_fixed s).2]
    exact hdrops e' (List.mem_cons_of_mem _ he')

/-! ## Answers -/

/-- The answers about a root come from some files of a disk. -/
structure AnswersFrom (d : Disk) (ls : Languages) (files : List Path) (root : Path)
    (s : Session) : Prop where
  findClass : ∀ name, (perform (findClass root name) s).1 =
    .ok ((files.filterMap (Project.unitOn d ls)).findSome? (·.findClass? name))
  findDeclarations : ∀ name, (perform (findDeclarations root name) s).1 =
    .ok ((files.filterMap (Project.unitOn d ls)).filterMap (·.findClass? name))
  unitAt : ∀ path, (perform (unitAt root path) s).1 =
    .ok (if path ∈ files then Project.unitOn d ls path else none)
  loadAll : (perform (loadAll root) s).1 = .ok (files.filterMap (Project.unitOn d ls)).length

/-- A session whose project is read completely answers from the disk that it was read from. -/
theorem Placed.answersFrom {d : Disk} {ls : Languages} (h : Placed s.context s.memory root)
    (hr : Path.resolve s.directory r = root)
    (hp : projectOf s.context s.memory root = .ok (key, p)) (hcomplete : p.Complete)
    (hreads : p.ReadsDisk d ls) : AnswersFrom d ls p.files r s := by
  have hunit : p.unitOf s.disk s.languages = fun path =>
      if path ∈ p.files then Project.unitOn d ls path else none :=
    funext fun path => (hcomplete.unitOf_eq s.disk s.languages d ls path).trans (hreads path)
  have hunits : p.files.filterMap (p.unitOf s.disk s.languages) =
      p.files.filterMap (Project.unitOn d ls) := by
    refine List.filterMap_congr fun path hpath => ?_
    rw [hunit]
    exact if_pos hpath
  have hdeclarations (name : String) : p.declarations s.disk s.languages name =
      (p.files.filterMap (Project.unitOn d ls)).filterMap (·.findClass? name) := by
    rw [Project.declarations, hunits]
  refine ⟨fun name => ?_, fun name => ?_, fun path => ?_, ?_⟩
  · obtain ⟨t, ht, -⟩ := perform_findClass name hr hp
    rw [ht]
    refine congrArg Except.ok ((h.answer_lookUp hp name).trans ?_)
    rw [← List.head?_filterMap]
    exact congrArg List.head? (hdeclarations name)
  · obtain ⟨t, ht, -⟩ := perform_findDeclarations name hr hp
    rw [ht, hdeclarations]
  · obtain ⟨t, ht, -⟩ := perform_unitAt path hr hp
    rw [ht, hunit]
  · obtain ⟨t, ht⟩ := perform_loadAll hr hp
    rw [ht, hunits]

variable {config : Config} {directory : Path} {disk : Disk} {now : Binary64}

/-- A root without a build file is answered for from the disk on which it was loaded: the event that
loads the project and all that come after it, changes to files included, find the files, classes and
units of that disk, until the root is dropped. -/
theorem answersFrom_disk_of_load (hstart : start config directory disk now = .ok s) (root : Path)
    {before later : List Event} {e : Event}
    (hbuild : Unbuilt (Path.resolve directory root) s (before ++ e :: later))
    (hnew : (s.through before).memory.project ⟨Path.resolve directory root, none⟩ = none)
    (hkept : (e.apply (s.through before)).memory.project ⟨Path.resolve directory root, none⟩ ≠ none)
    (hdrops : ∀ e' ∈ later, e'.drops directory (Path.resolve directory root) = false) :
    let first := s.through before
    ∃ rules folder, DiscoveryRules.ofConfig s.rules.config = .ok rules ∧
      rules.folder (Path.resolve directory root) none = .ok folder ∧
      ∀ t ∈ [first, s.through (before ++ e :: later)],
        AnswersFrom first.disk first.languages
          (first.disk.discover first.languages folder rules.exclude.texts) root t := by
  intro first
  have hdirectory : first.directory = directory :=
    (through_fixed before s).2.trans (views_of_start hstart).1
  have hempty : Placed s.context s.memory (Path.resolve directory root) := by
    rw [(views_of_start hstart).2.2]
    exact placed_of_forgotten (fun _ => rfl) fun _ => rfl
  have hfirst : Placed first.context first.memory (Path.resolve directory root) :=
    hempty.through hbuild.left
  have hrest := hbuild.through
  obtain ⟨p, hp⟩ := Option.ne_none_iff_exists'.1 hkept
  obtain ⟨rules, notes, hrules, hfind, hload⟩ := exists_load hrest.1 hnew hp
  obtain ⟨folder, hfolder, hfiles⟩ := Project.files_of_load hload hfind
  have hcomplete := Project.complete_of_load hload hfind
  have hreads := Project.readsDisk_of_load hload
  refine ⟨rules, folder, (through_fixed before s).1 ▸ hrules, hfolder, ?_⟩
  rw [← hfiles]
  intro t ht
  rcases List.mem_cons.1 ht with rfl | ht
  · -- The project is not kept yet, and the one that a query loads now is `p`.
    have hproject : projectOf first.context first.memory (Path.resolve directory root) =
        .ok (⟨Path.resolve directory root, none⟩, p) :=
      projectOf_eq_ok_iff.2 ⟨rules, none, hrules, hfind, rfl, .inr ⟨hnew, notes, hload⟩⟩
    exact hfirst.answersFrom (by rw [hdirectory]) hproject hcomplete hreads
  · -- The event puts `p` in place, and the rest of the run leaves it there.
    rw [List.mem_singleton.1 ht, through_append]
    have hloaded : Snapshot (Path.resolve directory root) p (e.apply first) :=
      ⟨hcomplete, hp, hfirst.event (hrest.2.now.trans hrest.1.symm)⟩
    have hdirectory' : (e.apply first).directory = directory :=
      (e.apply_fixed first).2.trans hdirectory
    have hlast := hloaded.through hrest.2 (by rw [hdirectory']; exact hdrops)
    refine hlast.placed.answersFrom ?_ (projectOf_of_buildOf hrest.2.last hlast.kept) hcomplete
      hreads
    rw [(through_fixed later _).2, hdirectory']

end Session

end

namespace Session

/-- A file that cannot be parsed when the project is loaded is repaired, and asked for again: the
answers stay those of the disk at first, and the class is not found. -/
theorem answersFrom_disk_of_load_repaired :
    let root : Path := ⟨"/", ["app"]⟩
    let file : Path := ⟨"/", ["app", "src", "m.py"]⟩
    let disk : Disk := ⟨[(file.parts, "class A(".toUTF8.toList)], []⟩
    let load : Event := .step (.ask root (.classOf "A"))
    let later : List Event :=
      [.step (.write file "class A: 0".toUTF8.toList), .unit root file, .units root, load]
    ∃ s rules folder, start .default ⟨"/", []⟩ disk (.zero false) = .ok s ∧
      DiscoveryRules.ofConfig s.rules.config = .ok rules ∧ rules.folder root none = .ok folder ∧
      AnswersFrom disk s.languages (disk.discover s.languages folder rules.exclude.texts) root
        (s.through (load :: later)) ∧
      (perform (findClass root "A") (s.through (load :: later))).1 = .ok none := by
  intro root file disk load later
  obtain ⟨s, hs, hcheck⟩ := exists_start_of_any .default ⟨"/", []⟩ disk (.zero false) (fun s =>
    Unbuilt root s ([] ++ load :: later) ∧
      ((load.apply s).memory.project ⟨root, none⟩).isSome ∧
      (perform (findClass root "A") (s.through (load :: later))).1.toOption.any Option.isNone)
    (by decide +kernel)
  obtain ⟨hbuild, hkept, hfound⟩ := of_decide_eq_true hcheck
  obtain ⟨-, hdisk, hmemory⟩ := views_of_start hs
  have hnew : s.memory.project ⟨root, none⟩ = none := by
    rw [hmemory]
    rfl
  obtain ⟨rules, folder, hrules, hfolder, hanswers⟩ := answersFrom_disk_of_load hs root hbuild hnew
    (Option.isSome_iff_ne_none.1 hkept) (by decide)
  obtain ⟨found, hfound, hnone⟩ := exists_ok_of_any hfound
  rw [Option.isNone_iff_eq_none.1 hnone] at hfound
  refine ⟨s, rules, folder, hs, hrules, hfolder, ?_, hfound⟩
  rw [← hdisk]
  exact hanswers _ (List.mem_cons_of_mem _ List.mem_cons_self)

end Session

end RouteLens
