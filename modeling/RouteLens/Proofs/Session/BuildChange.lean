import RouteLens.Proofs.Session.Places

/-!
# A root whose build file changes

Projects are kept by root and build file, and places of classes by root and class alone.  When
another build file is found for a root, a new project is loaded for it, and the places that are
remembered come from the files of an earlier one.

* `Rereads` is what queries do to a root as long as the files stay: what is read is kept, and no
  look-up comes to anything else than at first.
* `Hides` says when a remembered place stands before the first declaration of the new project.
  This is the only way in which a look-up can differ from that of a session that starts now.
-/

namespace RouteLens

section

variable {edition : Nat} [CharacterNames edition]

namespace Project

variable {d : Disk} {ls : Languages} {p : Project} {path : Path} {name : String} {k : ClassDecl}

/-- A project gives for its files what the disk has. -/
def ReadsDisk (d : Disk) (ls : Languages) (p : Project) : Prop :=
  ∀ path, p.unitOf d ls path = if path ∈ p.files then unitOn d ls path else none

theorem readsDisk_of_load {rules : DiscoveryRules} {root : Path} {notes : List Note}
    (h : load d ls rules root = .ok (p, notes)) : p.ReadsDisk d ls := by
  obtain ⟨q, paths, hnil, -, rfl⟩ := exists_foldl_of_load h
  have hext := extends_foldl_remember d ls q paths
  intro path
  rw [hext.unitOf_eq, hext.files_eq]
  simp [unitOf, hnil]

/-- What a project gives for a path is one of its files, and was read there. -/
def GivesFiles (d : Disk) (ls : Languages) (p : Project) : Prop :=
  ∀ path u, p.unitOf d ls path = some u → path ∈ p.files ∧ u.path = path

theorem ReadsDisk.givesFiles (h : p.ReadsDisk d ls) : p.GivesFiles d ls := by
  intro path u hu
  rw [h path] at hu
  split at hu
  case isTrue hmem => exact ⟨hmem, path_of_unitOn hu⟩
  case isFalse => cases hu

/-- A class that a file of a project declares stands in that file. -/
theorem GivesFiles.mem_and_path (h : p.GivesFiles d ls)
    (hk : (p.unitOf d ls path).bind (·.findClass? name) = some k) :
    path ∈ p.files ∧ k.unit.path = path := by
  obtain ⟨u, hu, hk⟩ := Option.bind_eq_some_iff.1 hk
  rw [unit_of_findClass hk]
  exact h path u hu

/-- The first declaration is found again in its file. -/
theorem GivesFiles.class_of_first (h : p.GivesFiles d ls)
    (hk : (p.declarations d ls name).head? = some k) :
    (p.unitOf d ls k.unit.path).bind (·.findClass? name) = some k := by
  rw [head_declarations] at hk
  obtain ⟨x, -, hx⟩ := List.exists_of_findSome?_eq_some hk
  rw [(h.mem_and_path hx).2]
  exact hx

end Project

namespace Session

variable {c : Context} {m₀ m : Memory} {d : Disk} {ls : Languages} {root r : Path}
  {key : ProjectKey} {p q : Project} {name : String} {place : Option Path} {s : Session}

/-! ## What look-ups come to -/

theorem answer_lookUp (d : Disk) (ls : Languages) (name : String) (p : Project)
    (place : Option Path) :
    (lookUp d ls name p place).answer =
      (place.bind fun path => (p.unitOf d ls path).bind (·.findClass? name)).or
        (p.declarations d ls name).head? := by
  unfold lookUp
  split
  case h_1 k hk => simp [hk]
  case h_2 hk => simp [hk, (extends_remember_place d ls p place).declarations_eq]

theorem place_lookUp (d : Disk) (ls : Languages) (name : String) (p : Project)
    (place : Option Path) :
    (lookUp d ls name p place).place =
      if (place.bind fun path => (p.unitOf d ls path).bind (·.findClass? name)).isSome then place
      else (p.declarations d ls name).head?.map (·.unit.path) := by
  unfold lookUp
  split
  case h_1 k hk => simp [hk]
  case h_2 hk => simp [hk, (extends_remember_place d ls p place).declarations_eq]

theorem answer_lookUp_of_extends (h : p.Extends d ls q) (name : String) (place : Option Path) :
    (lookUp d ls name q place).answer = (lookUp d ls name p place).answer := by
  simp only [answer_lookUp, h.unitOf_eq, h.declarations_eq]

/-- A look-up from the place that a look-up leaves comes to the same. -/
theorem answer_lookUp_place (hgives : p.GivesFiles d ls) (h : p.Extends d ls q) (name : String)
    (place : Option Path) :
    (lookUp d ls name p (lookUp d ls name q place).place).answer =
      (lookUp d ls name p place).answer := by
  rw [place_lookUp]
  simp only [h.unitOf_eq, h.declarations_eq]
  split
  case isTrue => rfl
  case isFalse hnone =>
    -- the place was of no use, and the first declaration stands where it is put
    rw [Option.not_isSome_iff_eq_none] at hnone
    rw [answer_lookUp, answer_lookUp, hnone, Option.none_or]
    cases hfirst : (p.declarations d ls name).head? with
    | none => rfl
    | some k => simp [hgives.class_of_first hfirst]

/-! ## Queries while the files stay -/

/-- What a root has come to, by look-ups on the same disk, from an earlier memory. -/
structure Rereads (c : Context) (m₀ m : Memory) (root : Path) : Prop where
  reads : ∀ key p, projectOf c m₀ root = .ok (key, p) → p.ReadsDisk c.disk c.languages
  error : ∀ f, projectOf c m₀ root = .error f → projectOf c m root = .error f
  project : ∀ key p, projectOf c m₀ root = .ok (key, p) →
    ∃ q, projectOf c m root = .ok (key, q) ∧ p.Extends c.disk c.languages q
  answer : ∀ key p name, projectOf c m₀ root = .ok (key, p) →
    (lookUp c.disk c.languages name p (m.place ⟨root, name⟩)).answer =
      (lookUp c.disk c.languages name p (m₀.place ⟨root, name⟩)).answer

namespace Rereads

theorem refl
    (hreads : ∀ key p, projectOf c m root = .ok (key, p) → p.ReadsDisk c.disk c.languages) :
    Rereads c m m root :=
  ⟨hreads, fun _ h => h, fun _ p h => ⟨p, h, .refl p⟩, fun _ _ _ _ => rfl⟩

/-- The project at first, given the project now. -/
theorem exists_first (h : Rereads c m₀ m root) (hq : projectOf c m root = .ok (key, q)) :
    ∃ p, projectOf c m₀ root = .ok (key, p) ∧ p.Extends c.disk c.languages q := by
  cases hp : projectOf c m₀ root with
  | error f =>
    rw [h.error f hp] at hq
    cases hq
  | ok kp =>
    obtain ⟨q', hq', hext⟩ := h.project kp.1 kp.2 hp
    rw [hq] at hq'
    cases hq'
    exact ⟨kp.2, rfl, hext⟩

theorem keep {q' : Project} (h : Rereads c m₀ m root) (hq : projectOf c m root = .ok (key, q))
    (hext : q.Extends c.disk c.languages q') : Rereads c m₀ (m.keep key q') root := by
  obtain ⟨p, hp, hpq⟩ := h.exists_first hq
  refine ⟨h.reads, fun f hf => ?_, fun key' p' hp' => ?_, h.answer⟩
  · rw [hp] at hf
    cases hf
  · rw [hp] at hp'
    cases hp'
    exact ⟨q', projectOf_of_kept hq Memory.project_keep, hpq.trans hext⟩

theorem setPlace (h : Rereads c m₀ m root)
    (hplace : ∀ key p, projectOf c m₀ root = .ok (key, p) →
      (lookUp c.disk c.languages name p place).answer =
        (lookUp c.disk c.languages name p (m.place ⟨root, name⟩)).answer) :
    Rereads c m₀ (m.setPlace ⟨root, name⟩ place) root := by
  refine ⟨h.reads, h.error, h.project, fun key p n hp => ?_⟩
  by_cases hn : n = name
  · subst hn
    rw [Memory.place_setPlace, hplace key p hp]
    exact h.answer key p n hp
  · rw [Memory.place_setPlace_of_ne fun e => hn (ClassKey.mk.inj e).2]
    exact h.answer key p n hp

theorem lookUp (h : Rereads c m₀ m root) (hq : projectOf c m root = .ok (key, q))
    (name : String) :
    let l := Session.lookUp c.disk c.languages name q (m.place ⟨root, name⟩)
    Rereads c m₀ ((m.keep key l.project).setPlace ⟨root, name⟩ l.place) root := by
  intro l
  refine (h.keep hq (extends_lookUp ..)).setPlace fun key' p hp => ?_
  obtain ⟨q', hq', hext⟩ := h.project key' p hp
  rw [hq] at hq'
  cases hq'
  exact answer_lookUp_place (h.reads key p hp).givesFiles hext name _

theorem congr {m' : Memory} (h : Rereads c m₀ m root)
    (hproject : ∀ build, m'.project ⟨root, build⟩ = m.project ⟨root, build⟩)
    (hplace : ∀ name, m'.place ⟨root, name⟩ = m.place ⟨root, name⟩) : Rereads c m₀ m' root := by
  have hsame : projectOf c m' root = projectOf c m root := by
    simp only [projectOf, hproject]
  refine ⟨h.reads, fun f hf => ?_, fun key p hp => ?_, fun key p name hp => ?_⟩
  · rw [hsame]
    exact h.error f hf
  · rw [hsame]
    exact h.project key p hp
  · rw [hplace]
    exact h.answer key p name hp

end Rereads

/-- Every query about a root leaves its look-ups as they are. -/
theorem fullyClosed_rereads (m₀ : Memory) (root : Path) : FullyClosed root fun s t =>
    t.context = s.context ∧
      (Rereads s.context m₀ s.memory root → Rereads s.context m₀ t.memory root) := by
  refine .of_touches (G := fun c m m' => Rereads c m₀ m root → Rereads c m₀ m' root) Iff.rfl
    (fun h h' => h' ∘ h) fun htouches h => ?_
  cases htouches with
  | nothing => exact h
  | files paths hp => exact h.keep hp (Project.extends_foldl_remember ..)
  | lookUp name hp => exact h.lookUp hp name
  | result className methodName e => exact h.congr (fun _ => rfl) fun _ => rfl

/-- A step that leaves the files, and does not drop a root, leaves its look-ups as they are. -/
theorem Rereads.apply {e : Step} (h : Rereads s.context m₀ s.memory root)
    (hdisk : e.leavesDisk = true) (hdrops : e.drops s.directory root = false) :
    Rereads (e.apply s).context m₀ (e.apply s).memory root := by
  cases e.effect root s with
  | dropped hdropped hmemory =>
    rw [hdrops] at hdropped
    cases hdropped
  | asked hwithin =>
    obtain ⟨hc, hread⟩ := hwithin _ (fullyClosed_rereads m₀ root)
    exact hc ▸ hread h
  | apart hproject hplace =>
    -- only the clock may have changed of the context, and no look-up reads it
    have hc := context_after_of_leavesDisk (List.forall_mem_singleton.2 hdisk) s
    have hsame := h.congr hproject hplace
    rw [show (e.apply s).context = _ from hc]
    exact ⟨hsame.reads, hsame.error, hsame.project, hsame.answer⟩

theorem Rereads.after {steps : List Step} (h : Rereads s.context m₀ s.memory root)
    (hsteps : ∀ e ∈ steps, e.leavesDisk = true ∧ e.drops s.directory root = false) :
    Rereads (s.after steps).context m₀ (s.after steps).memory root := by
  induction steps generalizing s with
  | nil => exact h
  | cons e steps ih =>
    have he := hsteps e List.mem_cons_self
    refine ih (h.apply he.1 he.2) fun e' he' => ?_
    rw [directory_apply]
    exact hsteps e' (List.mem_cons_of_mem _ he')

/-- What looking a class up comes to, through the views. -/
theorem findClass_eq_lookUp (hr : Path.resolve s.directory r = root) (name : String) :
    (perform (findClass r name) s).1 =
      (projectOf s.context s.memory root).map fun kp =>
        (lookUp s.context.disk s.context.languages name kp.2
          (s.memory.place ⟨root, name⟩)).answer := by
  cases hp : projectOf s.context s.memory root with
  | error f =>
    rw [perform_findClass_error hr hp]
    rfl
  | ok kp =>
    obtain ⟨t, ht, -⟩ := perform_findClass name hr hp
    rw [ht]
    rfl

/-- Looking a class up gives the same after steps that leave the files and do not drop the root. -/
theorem findClass_after {steps : List Step} (hr : Path.resolve s.directory r = root)
    (hreads : ∀ key p, projectOf s.context s.memory root = .ok (key, p) →
      p.ReadsDisk s.disk s.languages)
    (hsteps : ∀ e ∈ steps, e.leavesDisk = true ∧ e.drops s.directory root = false)
    (name : String) :
    (perform (findClass r name) (s.after steps)).1 = (perform (findClass r name) s).1 := by
  have hr' : Path.resolve (s.after steps).directory r = root := by rw [directory_after, hr]
  have hcontext := context_after_of_leavesDisk (fun e he => (hsteps e he).1) s
  -- only the clock has changed of the context, and no look-up reads it
  have hread := (Rereads.refl hreads).after hsteps
  rw [hcontext] at hread
  rw [findClass_eq_lookUp hr', findClass_eq_lookUp hr, hcontext]
  cases hp : projectOf s.context s.memory root with
  | error f => exact congrArg (Except.map _) (hread.error f hp)
  | ok kp =>
    obtain ⟨q, hq, hext⟩ := hread.project kp.1 kp.2 hp
    rw [hq]
    refine congrArg Except.ok ?_
    exact (answer_lookUp_of_extends hext name _).trans (hread.answer kp.1 kp.2 name hp)

/-! ## Another build file -/

/-- The build file that is found for a root has no project yet, so that one is loaded for it. -/
def LoadsAnew (c : Context) (m : Memory) (root : Path) : Prop :=
  ∃ build, buildOf c root = .ok build ∧ m.project ⟨root, build⟩ = none

/-- A remembered place hides the first declaration of a class: the file there belongs to the project
and declares the class, and the first declaration stands in another file. -/
def Hides (c : Context) (m : Memory) (root : Path) (name : String) : Prop :=
  ∃ key p path k first, projectOf c m root = .ok (key, p) ∧ m.place ⟨root, name⟩ = some path ∧
    (p.unitOf c.disk c.languages path).bind (·.findClass? name) = some k ∧
    (p.declarations c.disk c.languages name).head? = some first ∧ first.unit.path ≠ path

theorem projectOf_of_loadsAnew (h : LoadsAnew c m root) :
    projectOf c m root = projectOf c .empty root := by
  obtain ⟨build, hbuild, hnone⟩ := h
  obtain ⟨rules, hrules, hfind⟩ := bind_eq_ok_iff.1 hbuild
  simp only [projectOf, hrules, hfind, ok_bind, hnone, Memory.empty]

theorem readsDisk_of_loadsAnew (h : LoadsAnew c m root)
    (hp : projectOf c m root = .ok (key, p)) : p.ReadsDisk c.disk c.languages := by
  rw [projectOf_of_loadsAnew h] at hp
  obtain ⟨rules, build, -, -, -, hkept | ⟨-, notes, hload⟩⟩ := projectOf_eq_ok_iff.1 hp
  · cases hkept
  · exact Project.readsDisk_of_load hload

/-- A look-up gives the first declaration unless a remembered place hides it. -/
theorem answer_eq_first_iff (hreads : p.ReadsDisk c.disk c.languages)
    (hp : projectOf c m root = .ok (key, p)) :
    (lookUp c.disk c.languages name p (m.place ⟨root, name⟩)).answer =
        (p.declarations c.disk c.languages name).head? ↔
      ¬ Hides c m root name := by
  rw [answer_lookUp]
  constructor
  · rintro heq ⟨key', p', path, k, first, hp', hplace, hk, hfirst, hne⟩
    rw [hp] at hp'
    cases hp'
    rw [hplace, Option.bind_some, hk, hfirst, Option.some_or, Option.some.injEq] at heq
    exact hne (heq ▸ (hreads.givesFiles.mem_and_path hk).2)
  · intro hnot
    cases hplace : m.place ⟨root, name⟩ with
    | none => rfl
    | some path =>
      cases hk : (p.unitOf c.disk c.languages path).bind (·.findClass? name) with
      | none => rw [Option.bind_some, hk, Option.none_or]
      | some k =>
        rw [Option.bind_some, hk, Option.some_or]
        -- the file at the place declares the class, so that there is a first declaration
        cases hfirst : (p.declarations c.disk c.languages name).head? with
        | none =>
          rw [Project.head_declarations, List.findSome?_eq_none_iff] at hfirst
          rw [hfirst path (hreads.givesFiles.mem_and_path hk).1] at hk
          cases hk
        | some first =>
          by_cases hpath : first.unit.path = path
          · have hclass := hreads.givesFiles.class_of_first hfirst
            rw [hpath, hk] at hclass
            exact hclass
          · exact absurd ⟨key, p, path, k, first, hp, hplace, hk, hfirst, hpath⟩ hnot

variable {config : Config} {directory : Path} {disk : Disk} {now : Binary64}

/-- The project of a build file that is loaded has the sources that the disk lists, when it lists
them in path order. -/
theorem projectOf_of_sourcesBelow {rules : DiscoveryRules} {build : Path} {files : List Path}
    (hrules : DiscoveryRules.ofConfig c.rules.config = .ok rules)
    (hbuild : rules.findBuildFile c.disk root = .ok (some build))
    (hentries : ((c.disk.entriesIn c.languages root).forM fun name =>
      rules.exclude.settle (excludes rules.exclude.texts ⟨"", [name]⟩)) = .ok ⟨⟩)
    (hfiles : c.disk.sourcesBelow c.languages root rules.exclude.texts = files)
    (hsorted : files.Pairwise fun x y => x.le y) (hnone : m.project ⟨root, some build⟩ = none) :
    projectOf c m root = .ok (⟨root, some build⟩, ⟨root, files, some build, []⟩) := by
  have hdiscover : rules.discover c.disk c.languages root = .ok files := by
    rw [DiscoveryRules.discover, hentries, ok_bind, Disk.discover, hfiles,
      List.mergeSort_of_pairwise hsorted]
    rfl
  have hload : Project.load c.disk c.languages rules root = .ok (⟨root, files, some build, []⟩,
      [.projectLoaded root build files.length]) := by
    rw [Project.load, hbuild, ok_bind]
    simp only [hdiscover, ok_bind]
    rfl
  exact projectOf_eq_ok_iff.2 ⟨rules, some build, hrules, hbuild, rfl, .inr ⟨hnone, _, hload⟩⟩

/-- When another build file is found for a root, and a new project is loaded for it, looking a class
up gives what a session that starts on these files gives, exactly unless a place that is remembered
from before hides the first declaration.  This holds for the first look-up and for every later one,
until the files change again or the root is dropped. -/
theorem findClass_eq_fresh_iff (hstart : start config directory disk now = .ok s) (root : Path)
    (name : String) (steps later : List Step)
    (hnew : LoadsAnew (s.after steps).context (s.after steps).memory (Path.resolve directory root))
    (hlater : ∀ e ∈ later,
      e.leavesDisk = true ∧ e.drops directory (Path.resolve directory root) = false) :
    let t := s.after steps
    ∃ fresh, start config directory t.disk t.now = .ok fresh ∧
      (perform (findClass root name) fresh).1 =
        (perform (findDeclarations root name) fresh).1.map List.head? ∧
      ((perform (findClass root name) (t.after later)).1 = (perform (findClass root name) fresh).1 ↔
        ¬ Hides t.context t.memory (Path.resolve directory root) name) := by
  intro t
  have hdirectory : t.directory = directory :=
    (directory_after steps s).trans (views_of_start hstart).1
  have hr : Path.resolve t.directory root = Path.resolve directory root := by rw [hdirectory]
  obtain ⟨fresh, hfresh, hmemory, hcontext⟩ := start_again hstart t.disk t.now
  have hcontext : fresh.context = t.context := hcontext.trans (context_after_eq steps s).symm
  have hr' : Path.resolve fresh.directory root = Path.resolve directory root := by
    rw [(views_of_start hfresh).1]
  have hplaced : Placed fresh.context fresh.memory (Path.resolve directory root) := by
    rw [hmemory]
    exact placed_of_forgotten (fun _ => rfl) (fun _ => rfl)
  refine ⟨fresh, hfresh, hplaced.findClass_eq hr' name, ?_⟩
  -- both look-ups are made in the project that is loaded now
  rw [findClass_after hr (fun _ _ => readsDisk_of_loadsAnew hnew) (hdirectory ▸ hlater) name,
    findClass_eq_lookUp hr, findClass_eq_lookUp hr', hcontext, hmemory,
    projectOf_of_loadsAnew hnew]
  cases hp : projectOf t.context .empty (Path.resolve directory root) with
  | error f =>
    refine iff_of_true rfl ?_
    rintro ⟨key, p, path, k, first, hp', -⟩
    rw [projectOf_of_loadsAnew hnew, hp] at hp'
    cases hp'
  | ok kp =>
    rw [← projectOf_of_loadsAnew hnew] at hp
    rw [← answer_eq_first_iff (readsDisk_of_loadsAnew hnew hp) hp]
    exact ⟨Except.ok.inj, congrArg Except.ok⟩

end Session

end

namespace Session

/-- A file is written that marks a new project, and the class that is remembered is the first of it:
it is found as by a session that starts now, whatever is asked in between. -/
theorem findClass_eq_fresh_of_new_build :
    let root : Path := ⟨"/", ["app"]⟩
    let steps : List Step :=
      [.ask root (.classOf "A"), .write ⟨"/", ["app", "pyproject.toml"]⟩ []]
    let later : List Step := [.openProject root, .ask root (.methodFacts "A" "f")]
    ∃ s fresh, start .default ⟨"/", []⟩
        ⟨[(["app", "src", "b.py"], "class A: 0".toUTF8.toList)], []⟩ (.zero false) = .ok s ∧
      LoadsAnew (s.after steps).context (s.after steps).memory root ∧
      start .default ⟨"/", []⟩ (s.after steps).disk (s.after steps).now = .ok fresh ∧
      (perform (findClass root "A") ((s.after steps).after later)).1 =
        (perform (findClass root "A") fresh).1 := by
  intro root steps later
  obtain ⟨s, hs, hcheck⟩ := exists_start_of_any .default ⟨"/", []⟩
    ⟨[(["app", "src", "b.py"], "class A: 0".toUTF8.toList)], []⟩ (.zero false)
    (fun s =>
      let t := s.after steps
      buildOf t.context root = .ok (some ⟨"/", ["app", "pyproject.toml"]⟩) ∧
      (t.memory.project ⟨root, some ⟨"/", ["app", "pyproject.toml"]⟩⟩).isNone ∧
      (projectOf t.context t.memory root).toOption.any fun kp =>
        (kp.2.declarations t.context.disk t.context.languages "A").head?.map (·.unit.path) =
          t.memory.place ⟨root, "A"⟩)
    (by decide +kernel)
  obtain ⟨hbuild, hnone, hany⟩ := of_decide_eq_true hcheck
  have hnew : LoadsAnew (s.after steps).context (s.after steps).memory root :=
    ⟨_, hbuild, Option.isNone_iff_eq_none.1 hnone⟩
  obtain ⟨kp, hkp, hfirst⟩ := exists_ok_of_any hany
  obtain ⟨fresh, hfresh, -, hiff⟩ :=
    findClass_eq_fresh_iff hs root "A" steps later hnew (by decide)
  refine ⟨s, fresh, hs, hnew, hfresh, hiff.2 ?_⟩
  rw [show Path.resolve ⟨"/", []⟩ root = root from rfl]
  rintro ⟨key, p, path, k, first, hp, hplace, -, hhead, hne⟩
  rw [hkp] at hp
  cases hp
  have hsame := of_decide_eq_true hfirst
  rw [hhead, hplace, Option.map_some, Option.some.injEq] at hsame
  exact hne hsame

/-- A file is written that marks a new project, and the new project has an earlier file that
declares the class: the class is still found where it was, and a session that starts now finds it in
the earlier file. -/
theorem findClass_ne_fresh_of_hidden :
    let root : Path := ⟨"/", ["app"]⟩
    let source : List UInt8 := "class A: 0".toUTF8.toList
    let steps : List Step :=
      [.ask root (.classOf "A"), .write ⟨"/", ["app", "pyproject.toml"]⟩ []]
    ∃ s fresh k first, start .default ⟨"/", []⟩
        ⟨[(["app", "a.py"], source), (["app", "src", "b.py"], source)], []⟩ (.zero false) = .ok s ∧
      LoadsAnew (s.after steps).context (s.after steps).memory root ∧
      start .default ⟨"/", []⟩ (s.after steps).disk (s.after steps).now = .ok fresh ∧
      (perform (findClass root "A") (s.after steps)).1 = .ok (some k) ∧
      k.unit.path = ⟨"/", ["app", "src", "b.py"]⟩ ∧
      (perform (findClass root "A") fresh).1 = .ok (some first) ∧
      first.unit.path = ⟨"/", ["app", "a.py"]⟩ := by
  intro root source steps
  let build : Path := ⟨"/", ["app", "pyproject.toml"]⟩
  let p : Project := ⟨root, [⟨"/", ["app", "a.py"]⟩, ⟨"/", ["app", "src", "b.py"]⟩], some build, []⟩
  obtain ⟨s, hs, hcheck⟩ := exists_start_of_any .default ⟨"/", []⟩
    ⟨[(["app", "a.py"], source), (["app", "src", "b.py"], source)], []⟩ (.zero false)
    (fun s =>
      let t := s.after steps
      (t.memory.project ⟨root, some build⟩).isNone ∧
      ((DiscoveryRules.ofConfig t.context.rules.config).toOption.any fun rules =>
        rules.findBuildFile t.context.disk root = .ok (some build) ∧
        ((t.context.disk.entriesIn t.context.languages root).forM fun name =>
          rules.exclude.settle (excludes rules.exclude.texts ⟨"", [name]⟩)) = .ok ⟨⟩ ∧
        t.context.disk.sourcesBelow t.context.languages root rules.exclude.texts = p.files) ∧
      ((lookUp t.context.disk t.context.languages "A" p (t.memory.place ⟨root, "A"⟩)).answer.any
        fun k => k.unit.path = ⟨"/", ["app", "src", "b.py"]⟩) ∧
      (lookUp t.context.disk t.context.languages "A" p none).answer.any
        fun first => first.unit.path = ⟨"/", ["app", "a.py"]⟩)
    (by decide +kernel)
  obtain ⟨hnone, hany, hhit, hscan⟩ := of_decide_eq_true hcheck
  obtain ⟨rules, hrules, hany⟩ := exists_ok_of_any hany
  obtain ⟨hbuild, hentries, hfiles⟩ := of_decide_eq_true hany
  have hnone := Option.isNone_iff_eq_none.1 hnone
  obtain ⟨k, hk, hkpath⟩ := (Option.any_eq_true _ _).1 hhit
  obtain ⟨first, hfirst, hfirstpath⟩ := (Option.any_eq_true _ _).1 hscan
  -- the project that is loaded is the same with and without what is kept
  have hp (m : Memory) (hm : m.project ⟨root, some build⟩ = none) :
      projectOf (s.after steps).context m root = .ok (⟨root, some build⟩, p) :=
    projectOf_of_sourcesBelow hrules hbuild hentries hfiles (by decide +kernel) hm
  obtain ⟨fresh, hfresh, hmemory, hcontext⟩ :=
    start_again hs (s.after steps).disk (s.after steps).now
  have hcontext : fresh.context = (s.after steps).context :=
    hcontext.trans (context_after_eq steps s).symm
  have hnew : LoadsAnew (s.after steps).context (s.after steps).memory root :=
    ⟨_, buildOf_of_projectOf (hp _ hnone), hnone⟩
  have hr : Path.resolve (s.after steps).directory root = root := by
    rw [directory_after, (views_of_start hs).1]
    rfl
  have hr' : Path.resolve fresh.directory root = root := by
    rw [(views_of_start hfresh).1]
    rfl
  refine ⟨s, fresh, k, first, hs, hnew, hfresh, ?_, of_decide_eq_true hkpath, ?_,
    of_decide_eq_true hfirstpath⟩
  · rw [findClass_eq_lookUp hr, hp _ hnone]
    exact congrArg Except.ok hk
  · rw [findClass_eq_lookUp hr', hcontext, hmemory, hp _ rfl]
    exact congrArg Except.ok hfirst

end Session

end RouteLens
